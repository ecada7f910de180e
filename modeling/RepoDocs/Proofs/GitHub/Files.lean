import RepoDocs.GitHub.Client
import RepoDocs.Proofs.Http.Resource

/-! Which file is asked for when the content of a file is fetched: the one with the path that is given, as
long as no part of that path has a meaning in addresses. -/

namespace RepoDocs.GitHub

open Http Text

/-- What comes of a response to the request for a file. -/
def contentOf (path : String) : Except SourceError Response → Except SourceError String
  | .ok r => .ok r.text
  | .error (.notFound _) => .error (.notFound s!"File not found: {path}")
  | .error e => .error e

theorem run_fetchContent {client : Client} {url path : String} {c : Coordinates}
    (read : coordinatesOf url = .ok c) :
    (fetchContent client url path).run =
      (get client (contentAddress client.settings c path) "application/vnd.github.raw").bind
        fun x => .done (contentOf path x) := by
  unfold fetchContent
  rw [read, ExceptT.run_bind]
  change Program.bind (Program.done (Except.ok c)) _ = _
  rw [Program.bind]
  dsimp only
  generalize get client (contentAddress client.settings c path) "application/vnd.github.raw" = p
  induction p with
  | done x =>
    cases x with
    | ok r => rfl
    | error e => cases e <;> rfl
  | ask r next ih => exact congrArg (Program.ask r) (funext fun x => ih x)

/-- The first thing that fetching the content of a file does is to send the request. -/
def Fetches (client : Client) (url path : String) (r : Request) : Prop :=
  ∃ next, (fetchContent client url path).run = .ask r next

/-- The headers of a request for the content of a file. -/
def contentHeaders (client : Client) : List (String × String) :=
  ("user-agent", client.settings.userAgent) :: ("accept", "application/vnd.github.raw") ::
    (client.token?.map fun t => ("authorization", s!"token {t}")).toList

theorem fetches_iff {client : Client} {url path : String} {c : Coordinates} {r : Request}
    (read : coordinatesOf url = .ok c)
    (sent : Request.ofAddress .get (contentAddress client.settings c path) (contentHeaders client) none =
      .ok r) (r' : Request) : Fetches client url path r' ↔ r' = r := by
  have asks : ∃ next, get client (contentAddress client.settings c path) "application/vnd.github.raw" =
      .ask r next := by
    have sends : get client (contentAddress client.settings c path) "application/vnd.github.raw" =
        (send .get (contentAddress client.settings c path) (contentHeaders client) none >>= _) := rfl
    rw [sends, send, sent]
    exact ⟨_, rfl⟩
  obtain ⟨next, hnext⟩ := asks
  rw [Fetches, run_fetchContent read, hnext, Program.bind]
  constructor
  · rintro ⟨_, h⟩
    exact (Program.ask.inj h).1.symm
  · rintro rfl
    exact ⟨_, rfl⟩

/-- The path of a file below the address of the API. -/
def filePath (c : Coordinates) (path : String) : List Char :=
  "repos".toList ++ '/' :: (c.owner.toList ++ '/' :: (c.name.toList ++ '/' ::
    ("contents".toList ++ '/' :: path.toList)))

/-- A path that a file in a repository can have. -/
def IsFilePath (path : String) : Prop :=
  ∀ segment ∈ splitAtEach (· == '/') path.toList, segment ≠ [] ∧ segment ≠ ['.'] ∧ segment ≠ ['.', '.']

instance (path : String) : Decidable (IsFilePath path) := inferInstanceAs (Decidable (∀ _ ∈ _, _))

/-- Whether a character may stand in the name of an owner or a repository. -/
def isNameCharacter (c : Char) : Bool := c.isAlphanum || c = '-' || c = '_' || c = '.'

/-- A name of an owner or a repository. -/
def IsRepositoryName (name : List Char) : Prop := name ≠ [] ∧ ∀ c ∈ name, isNameCharacter c = true

instance (name : List Char) : Decidable (IsRepositoryName name) :=
  decidable_of_iff (name ≠ [] ∧ name.all isNameCharacter = true)
    (and_congr_right fun _ => List.all_eq_true)

/-- The name is that of the directory itself or of the one above. -/
def IsDotted (name : List Char) : Prop := name = ['.'] ∨ name = ['.', '.']

instance (name : List Char) : Decidable (IsDotted name) := inferInstanceAs (Decidable (_ ∨ _))

variable {c : Coordinates} {path : String} {name : List Char}

theorem IsFilePath.ne_nil (h : IsFilePath path) : path.toList ≠ [] := by
  intro none
  rw [IsFilePath, none] at h
  exact (h [] (List.mem_singleton_self [])).1 rfl

theorem contentAddress_eq {s : Settings} (h : IsFilePath path) : contentAddress s c path =
    String.ofList ((withoutEndSlashes s.apiBase).toList ++ '/' :: filePath c path) := by
  have start : path.toList.dropWhile (· = '/') = path.toList := by
    rw [IsFilePath] at h
    cases hs : path.toList with
    | nil => rfl
    | cons d rest =>
      rw [List.dropWhile_cons_of_neg]
      intro slash
      rw [hs, splitAtEach, if_pos (by simpa using slash)] at h
      exact (h [] List.mem_cons_self).1 rfl
  refine String.toList_injective ?_
  rw [contentAddress, repositoryAddress, start]
  simp [toString, filePath]

theorem IsRepositoryName.not_mem (h : IsRepositoryName name) {d : Char} (hd : isNameCharacter d = false) :
    d ∉ name :=
  fun mem => absurd (h.2 d mem) (by simp [hd])

theorem IsRepositoryName.isLiteral (h : IsRepositoryName name) : Url.IsLiteral name := by
  have other {d e : Char} (hd : d ∈ name) (he : isNameCharacter e = false) : d ≠ e :=
    fun same => h.not_mem he (same ▸ hd)
  refine ⟨fun d hd => ?_, fun some => ?_, Url.unescaped_of_not_mem (h.not_mem (by decide))⟩
  · refine ⟨other hd (by decide), other hd (by decide), other hd (by decide), ?_⟩
    simp [Url.isBreak, other hd (show isNameCharacter '\t' = false by decide),
      other hd (show isNameCharacter '\n' = false by decide),
      other hd (show isNameCharacter '\r' = false by decide)]
  · have apart : ∀ n < 33, isNameCharacter (Char.ofNat n) = false := by decide
    by_contra edge
    have low : (name.getLast some).toNat < 33 := by
      simp only [Url.isEdge, Bool.not_eq_false, decide_eq_true_eq] at edge
      omega
    have none := apart _ low
    rw [Char.ofNat_toNat, h.2 _ (List.getLast_mem some)] at none
    cases none

/-- The segments that the API puts around those of a repository look like names. -/
theorem isRepositoryName_repos : IsRepositoryName "repos".toList := by decide

theorem isRepositoryName_contents : IsRepositoryName "contents".toList := by decide

theorem isLiteral_filePath (owner : IsRepositoryName c.owner.toList) (name : IsRepositoryName c.name.toList)
    (file : IsFilePath path) : Url.IsLiteral (filePath c path) ↔ Url.IsLiteral path.toList := by
  have plain (s : List Char) (h : IsRepositoryName s) := h.isLiteral
  unfold filePath
  rw [Url.isLiteral_append (plain _ isRepositoryName_repos) (by simp),
    Url.isLiteral_append (plain _ owner) (by simp), Url.isLiteral_append (plain _ name) (by simp),
    Url.isLiteral_append (plain _ isRepositoryName_contents) file.ne_nil]

theorem dots_filePath (owner : IsRepositoryName c.owner.toList) (name : IsRepositoryName c.name.toList)
    (file : IsFilePath path) :
    (∀ segment ∈ splitAtEach (· == '/') (filePath c path), segment ≠ ['.'] ∧ segment ≠ ['.', '.']) ↔
      ¬IsDotted c.owner.toList ∧ ¬IsDotted c.name.toList := by
  have start : ('/' == '/') = true := beq_self_eq_true _
  have uncut (s : List Char) (h : IsRepositoryName s) : splitAtEach (· == '/') s = [s] :=
    splitAtEach_of_not_mem (h.not_mem (by decide))
  rw [filePath, splitAtEach_append_cons (p := (· == '/')) start,
    splitAtEach_append_cons (p := (· == '/')) start, splitAtEach_append_cons (p := (· == '/')) start,
    splitAtEach_append_cons (p := (· == '/')) start, uncut _ isRepositoryName_repos, uncut _ owner,
    uncut _ name, uncut _ isRepositoryName_contents]
  have rest : ∀ segment ∈ splitAtEach (· == '/') path.toList, segment ≠ ['.'] ∧ segment ≠ ['.', '.'] :=
    fun segment mem => (file segment mem).2
  simp only [List.singleton_append, List.forall_mem_cons, IsDotted, not_or]
  exact ⟨fun h => ⟨h.2.1, h.2.2.1⟩, fun h => ⟨by decide, h.1, h.2, by decide, rest⟩⟩

/-- A request that can be sent to the address of a directory can be sent to what is below. -/
theorem ofAddress_below {s : List Char} {headers : List (String × String)} {root : Request}
    (usable : Request.ofAddress .get (String.ofList (s ++ ['/'])) headers none = .ok root)
    (query : root.url.query? = none) (fragment : root.url.fragment? = none) (t : List Char) :
    ∃ r, Request.ofAddress .get (String.ofList (s ++ '/' :: t)) headers none = .ok r ∧
      (r.url.Locates root.url t ↔ Url.IsLiteral t ∧
        ∀ segment ∈ splitAtEach (· == '/') t, segment ≠ ['.'] ∧ segment ≠ ['.', '.']) := by
  unfold Request.ofAddress at usable
  split at usable
  · cases usable
  · next u found =>
    split_ifs at usable with host admitted web
    obtain rfl := Except.ok.inj usable
    have isHttp : u.isHttp = true := by simpa using web
    obtain ⟨u', found', scheme, authority, locates⟩ := Url.parse_locates found isHttp query fragment t
    refine ⟨{ method := .get, url := u', headers, body? := none }, ?_, locates⟩
    have host' : u'.hasHost = u.hasHost := by rw [Url.hasHost, authority, Url.hasHost]
    have web' : u'.isHttp = u.isHttp := by rw [Url.isHttp, scheme, Url.isHttp]
    simp only [Request.ofAddress, found', host', web', host, admitted, web, Bool.false_eq_true, if_false]

/-- The path and the coordinates have no part with a meaning in addresses. -/
def IsPlain (c : Coordinates) (path : String) : Prop :=
  Url.IsLiteral path.toList ∧ ¬IsDotted c.owner.toList ∧ ¬IsDotted c.name.toList

/-- The request for a file leads to the file of that path just when no part of the path has a meaning in
addresses.  Different such paths lead to different files. -/
theorem request_locates_file (client : Client) (url : String) {root : Request}
    (read : Coordinates.parse url = .ok c) (owner : IsRepositoryName c.owner.toList)
    (name : IsRepositoryName c.name.toList)
    (usable : Request.ofAddress .get (withoutEndSlashes client.settings.apiBase ++ "/")
      (contentHeaders client) none = .ok root)
    (query : root.url.query? = none) (fragment : root.url.fragment? = none) :
    ∀ path, IsFilePath path →
      ∃ r, Fetches client url path r ∧ (r.url.Locates root.url (filePath c path) ↔ IsPlain c path) ∧
        ∀ path' r', IsFilePath path' → Fetches client url path' r' → IsPlain c path → IsPlain c path' →
          Url.decoded r'.url.path = Url.decoded r.url.path → path' = path := by
  have found : coordinatesOf url = .ok c := by
    rw [coordinatesOf, read]
    rfl
  have base : withoutEndSlashes client.settings.apiBase ++ "/" =
      String.ofList ((withoutEndSlashes client.settings.apiBase).toList ++ ['/']) :=
    String.toList_injective (by simp)
  rw [base] at usable
  have requests (path : String) (file : IsFilePath path) :
      ∃ r, (∀ r', Fetches client url path r' ↔ r' = r) ∧
        (r.url.Locates root.url (filePath c path) ↔ IsPlain c path) := by
    obtain ⟨r, sent, locates⟩ := ofAddress_below usable query fragment (filePath c path)
    rw [← contentAddress_eq file] at sent
    rw [isLiteral_filePath owner name file, dots_filePath owner name file] at locates
    exact ⟨r, fetches_iff found sent, locates⟩
  intro path file
  obtain ⟨r, fetches, locates⟩ := requests path file
  refine ⟨r, (fetches r).2 rfl, locates, fun path' r' file' fetched plain plain' same => ?_⟩
  obtain ⟨r₂, fetches', locates'⟩ := requests path' file'
  obtain rfl := (fetches' r').1 fetched
  have paths := (locates.2 plain).path_unique (locates'.2 plain') same
  exact String.toList_injective (by simpa [filePath] using paths)

/-- A blank in the name of a file does no harm.  In the name of a directory, a number sign ends the path. -/
theorem request_locates_file_unless_hash :
    let client : Client := { settings := {}, token? := none }
    let c : Coordinates := { owner := "acme", name := "widgets" }
    let root : Url :=
      { scheme := "https".toList, authority? := some "api.github.com".toList, path := "/".toList }
    (∃ r, Fetches client "https://github.com/acme/widgets" "src/a b.py" r ∧
        r.url.Locates root (filePath c "src/a b.py")) ∧
      ∃ r, Fetches client "https://github.com/acme/widgets" "C#/Program.cs" r ∧
        ¬r.url.Locates root (filePath c "C#/Program.cs") := by
  intro client c root
  have read : Coordinates.parse "https://github.com/acme/widgets" = .ok c := by decide
  have parsed : Url.parse (withoutEndSlashes client.settings.apiBase ++ "/") = some root := by decide
  have usable : Request.ofAddress .get (withoutEndSlashes client.settings.apiBase ++ "/")
      (contentHeaders client) none =
        .ok { method := .get, url := root, headers := contentHeaders client } := by
    have host : root.hasHost = true := by decide
    have admitted : (contentHeaders client).all (isHeaderText ·.2) = true := by decide
    have web : root.isHttp = true := by decide
    simp only [Request.ofAddress, parsed, host, admitted, web, Bool.not_true, Bool.false_eq_true, if_false]
  have requests := request_locates_file client "https://github.com/acme/widgets" read
    (by decide) (by decide) usable rfl rfl
  obtain ⟨r, fetches, locates, -⟩ := requests "src/a b.py" (by decide)
  obtain ⟨r', fetches', locates', -⟩ := requests "C#/Program.cs" (by decide)
  have plain : IsPlain c "src/a b.py" := 
    ⟨⟨List.all_iff_forall_prop.1 (by decide), by decide, by decide⟩, by decide, by decide⟩
  refine ⟨⟨r, fetches, locates.2 plain⟩, r', fetches', fun located => ?_⟩
  have harmless := (locates'.1 located).1.harmless '#' (by decide)
  exact harmless.1 rfl

end RepoDocs.GitHub
