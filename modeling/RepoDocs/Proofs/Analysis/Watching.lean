import RepoDocs.Proofs.Analysis.JobCourse
import RepoDocs.Proofs.Store.Standing

/-! What a watch on the current job of a repository reports, where others work on meanwhile.  It reads the
job now and then; as long as no other job takes its place, the reads show one job that goes on in its
course. -/

namespace RepoDocs

open Analysis

/-! ### The current job as others go on -/

/-- The later record is of the same job, no less far, and the same record once the job has ended. -/
structure Job.GoesOn (j j' : Job) : Prop where
  id : j'.id = j.id
  percent : j.percent ≤ j'.percent
  ended : j.isTerminal = true → j' = j

variable {j j' : Job} {s s' : Store}

theorem Job.GoesOn.refl (j : Job) : j.GoesOn j := ⟨rfl, Nat.le_refl _, fun _ => rfl⟩

theorem Job.GoesOn.trans {j₁ j₂ j₃ : Job} (first : j₁.GoesOn j₂) (second : j₂.GoesOn j₃) :
    j₁.GoesOn j₃ where
  id := second.id.trans first.id
  percent := Nat.le_trans first.percent second.percent
  ended terminal := by
    obtain rfl := first.ended terminal
    exact second.ended terminal

theorem Job.Advance.goesOn (h : j.Advance j') : j.GoesOn j' :=
  ⟨h.id, h.percent, fun terminal => by simp [h.live] at terminal⟩

theorem Job.Follow.jobsOf (h : Job.Follow s.jobs s'.jobs) (repositoryId : String) :
    Job.Follow (s.jobsOf repositoryId) (s'.jobsOf repositoryId) := by
  obtain ⟨kept, new, split, pairs, fresh⟩ := h
  refine ⟨kept.filter (·.repositoryId == repositoryId), new.filter (·.repositoryId == repositoryId),
    ?_, ?_, fun j hj => fresh j (List.mem_of_mem_filter hj)⟩
  · rw [Store.jobsOf, split, List.filter_append]
  · refine List.rel_filter (fun j j' pair => ?_) pairs
    rcases pair with rfl | advance
    · exact .rfl
    · simp only [advance.repositoryId]

theorem Job.Follow.length_jobsOf_le (h : Job.Follow s.jobs s'.jobs) (repositoryId : String) :
    (s.jobsOf repositoryId).length ≤ (s'.jobsOf repositoryId).length := by
  obtain ⟨kept, new, split, pairs, -⟩ := h.jobsOf repositoryId
  rw [split, List.length_append, pairs.length_eq]
  exact Nat.le_add_right ..

/-- The last job remains the last one where there are no more jobs than before. -/
theorem Job.Follow.current {repositoryId : String} (h : Job.Follow s.jobs s'.jobs)
    (same : (s'.jobsOf repositoryId).length = (s.jobsOf repositoryId).length)
    (current : s.currentJob? repositoryId = some j) :
    ∃ j', s'.currentJob? repositoryId = some j' ∧ j.GoesOn j' := by
  obtain ⟨kept, new, split, pairs, -⟩ := h.jobsOf repositoryId
  have none : new = [] := by
    rw [split, List.length_append, pairs.length_eq] at same
    exact List.length_eq_zero_iff.1 (by omega)
  rw [none, List.append_nil] at split
  rw [Store.currentJob?_eq_getLast?, List.getLast?_eq_head?_reverse, List.head?_eq_some_iff] at current
  obtain ⟨earlier, current⟩ := current
  have pairs := List.rel_reverse pairs
  rw [current] at pairs
  cases hkept : kept.reverse with
  | nil =>
    rw [hkept] at pairs
    cases pairs
  | cons j' others =>
    rw [hkept] at pairs
    refine ⟨j', ?_, ?_⟩
    · rw [Store.currentJob?_eq_getLast?, List.getLast?_eq_head?_reverse, split, hkept, List.head?_cons]
    · rcases (List.forall₂_cons.1 pairs).1 with rfl | advance
      · exact .refl _
      · exact advance.goesOn

namespace Session

variable {c : Conditions} {repositoryId : String}

theorem Steps.length_jobsOf_le (inj : Function.Injective c.names.job)
    (indirect : ∀ id u, ¬c.begins (.store (.updateJob id u))) {s s' : Session} (h : Reachable c s)
    (steps : Steps c s s') (repositoryId : String) :
    (s.store.jobsOf repositoryId).length ≤ (s'.store.jobsOf repositoryId).length := by
  induction steps with
  | refl => exact Nat.le_refl _
  | tail steps step ih =>
    exact Nat.le_trans ih ((Reachable.follow inj indirect (h.trans steps) step).length_jobsOf_le _)

/-- As long as no new job takes its place, the current job goes on. -/
theorem Steps.current (inj : Function.Injective c.names.job)
    (indirect : ∀ id u, ¬c.begins (.store (.updateJob id u))) {s s' : Session} (h : Reachable c s)
    (steps : Steps c s s')
    (same : (s'.store.jobsOf repositoryId).length = (s.store.jobsOf repositoryId).length)
    (current : s.store.currentJob? repositoryId = some j) :
    ∃ j', s'.store.currentJob? repositoryId = some j' ∧ j.GoesOn j' := by
  induction steps with
  | refl => exact ⟨j, current, .refl j⟩
  | tail steps step ih =>
    have follow := Reachable.follow inj indirect (h.trans steps) step
    have more := Steps.length_jobsOf_le inj indirect h steps repositoryId
    have grown := follow.length_jobsOf_le repositoryId
    obtain ⟨j₁, current₁, first⟩ := ih (by omega)
    obtain ⟨j₂, current₂, second⟩ := follow.current (by omega) current₁
    exact ⟨j₂, current₂, first.trans second⟩

end Session

/-! ### What is reported of the jobs that are read -/

namespace Analysis

/-- What is compared of two reads. -/
def display (j : Job) : JobStatus × String := (j.status, j.progress)

theorem sameProgress_iff : sameProgress j j' = true ↔ display j = display j' := by
  simp [sameProgress, display]

theorem isTerminal_eq_of_display (h : display j = display j') : j.isTerminal = j'.isTerminal :=
  congrArg (fun shown => shown.1.isTerminal) h

/-- The jobs that show something else than the one before. -/
def changes : (last? : Option Job) → List Job → List Job
  | _, [] => []
  | last?, j :: later => (if last?.any (sameProgress j) then [] else [j]) ++ changes (some j) later

theorem changes_sublist (last? : Option Job) (seen : List Job) : (changes last? seen).Sublist seen := by
  induction seen generalizing last? with
  | nil => exact .slnil
  | cons j later ih =>
    rw [changes]
    split
    · exact (ih (some j)).cons j
    · exact (ih (some j)).cons_cons j

theorem head?_changes (seen : List Job) : (changes none seen).head? = seen.head? := by
  cases seen <;> rfl

/-- Each job that is reported shows something else than the one reported before it, which shows what the
last read does. -/
theorem isChain_cons_changes (last : Job) (seen : List Job) {reported : Job}
    (same : display reported = display last) :
    (reported :: changes (some last) seen).IsChain fun a b => display a ≠ display b := by
  induction seen generalizing last reported with
  | nil => exact .singleton _
  | cons j later ih =>
    rw [changes]
    by_cases unchanged : display j = display last
    · rw [if_pos (by simpa [sameProgress_iff] using unchanged)]
      exact ih j (same.trans unchanged.symm)
    · rw [if_neg (by simpa [sameProgress_iff] using unchanged)]
      exact .cons_cons (fun h => unchanged (h.symm.trans same)) (ih j rfl)

theorem isChain_changes (seen : List Job) :
    (changes none seen).IsChain fun a b => display a ≠ display b := by
  cases seen with
  | nil => exact .nil
  | cons j later => exact isChain_cons_changes j later rfl

/-- What is read shows in what was reported. -/
theorem exists_display (seen : List Job) (last? : Option Job) {j : Job} (hj : j ∈ seen) :
    ∃ j' ∈ last?.toList ++ changes last? seen, display j' = display j := by
  induction seen generalizing last? with
  | nil => cases hj
  | cons k later ih =>
    have first : ∃ k' ∈ last?.toList ++ changes last? (k :: later), display k' = display k := by
      rw [changes]
      split
      · rename_i unchanged
        obtain ⟨last, rfl, same⟩ := (Option.any_eq_true _ _).1 unchanged
        exact ⟨last, by simp, (sameProgress_iff.1 same).symm⟩
      · exact ⟨k, by simp, rfl⟩
    rcases List.mem_cons.1 hj with rfl | hj
    · exact first
    · obtain ⟨j', hj', same⟩ := ih (some k) hj
      rcases List.mem_append.1 hj' with hk | reported
      · obtain rfl := List.mem_singleton.1 hk
        obtain ⟨k', hk', shown⟩ := first
        exact ⟨k', hk', shown.trans same⟩
      · exact ⟨j', by simp [changes, reported], same⟩

/-- The first job that has ended is reported, whatever was read before. -/
theorem getLast?_changes (seen : List Job) (last? : Option Job)
    (live : ∀ j ∈ last?.toList ++ seen, j.isTerminal = false) (terminal : j.isTerminal = true) :
    (changes last? (seen ++ [j])).getLast? = some j := by
  induction seen generalizing last? with
  | nil =>
    have other : last?.any (sameProgress j) = false := by
      rw [← Bool.not_eq_true, Option.any_eq_true]
      rintro ⟨last, rfl, same⟩
      have ended := isTerminal_eq_of_display (sameProgress_iff.1 same)
      simp [terminal, live] at ended
    simp [changes, other]
  | cons k later ih =>
    have rest := ih (some k) (by simp_all)
    simp [changes, rest]

/-! ### What is seen -/

/-- What a watch sees of the jobs that it may read, up to the first one that has ended. -/
def sights (read : Nat → Job) : (reads : Nat) → List Job × Sighting
  | 0 => ([], .live)
  | reads + 1 =>
    if (read 0).isTerminal then ([read 0], .ended (read 0))
    else
      let (later, sighting) := sights (fun i => read (i + 1)) reads
      (read 0 :: later, sighting)

theorem sights_of_ended {read : Nat → Job} (terminal : (read 0).isTerminal = true) (reads : Nat) :
    sights read (reads + 1) = ([read 0], .ended (read 0)) := by
  simp [sights, terminal]

theorem sights_of_live {read : Nat → Job} (live : (read 0).isTerminal = false) (reads : Nat) :
    sights read (reads + 1) =
      (read 0 :: (sights (fun i => read (i + 1)) reads).1, (sights (fun i => read (i + 1)) reads).2) := by
  simp [sights, live]

theorem sights_cases (read : Nat → Job) (reads : Nat) :
    (∃ last < reads, (∀ i < last, (read i).isTerminal = false) ∧ (read last).isTerminal = true ∧
      sights read reads = ((List.range (last + 1)).map read, .ended (read last))) ∨
    (∀ i < reads, (read i).isTerminal = false) ∧
      sights read reads = ((List.range reads).map read, .live) := by
  induction reads generalizing read with
  | zero => exact .inr ⟨nofun, rfl⟩
  | succ reads ih =>
    have first (n : Nat) : (List.range (n + 1)).map read =
        read 0 :: (List.range n).map fun i => read (i + 1) := by
      rw [List.range_succ_eq_map, List.map_cons, List.map_map]
      rfl
    cases terminal : (read 0).isTerminal with
    | true => exact .inl ⟨0, Nat.succ_pos _, nofun, terminal, sights_of_ended terminal reads⟩
    | false =>
      rcases ih fun i => read (i + 1) with ⟨last, within, live, ended, seen⟩ | ⟨live, seen⟩
      · refine .inl ⟨last + 1, Nat.succ_lt_succ within, Nat.forall_lt_succ_left.2 ⟨terminal, live⟩,
          ended, ?_⟩
        rw [sights_of_live terminal, seen, first]
      · refine .inr ⟨Nat.forall_lt_succ_left.2 ⟨terminal, live⟩, ?_⟩
        rw [sights_of_live terminal, seen, first]

/-- What a watch reports that may read a job so often and has read it `count` times: each change of what
it shows, and its end, at which the watch is over.  The job is the same one all the time, and its
percentage does not fall. -/
structure Watched (read : Nat → Job) (reads count : Nat) (jobs : List Job) (sighting : Sighting) :
    Prop where
  within : count ≤ reads
  real : jobs.Sublist ((List.range count).map read)
  first : 0 < reads → jobs.head? = some (read 0)
  apart : jobs.IsChain fun a b => (a.status, a.progress) ≠ (b.status, b.progress)
  whole : ∀ i < count, ∃ j ∈ jobs, (j.status, j.progress) = ((read i).status, (read i).progress)
  rising : jobs.Pairwise fun a b => b.id = a.id ∧ a.percent ≤ b.percent
  early : ∀ i, i + 1 < count → (read i).isTerminal = false
  closed : (∃ last, count = last + 1 ∧ (read last).isTerminal = true ∧
      jobs.getLast? = some (read last) ∧ sighting = .ended (read last)) ∨
    count = reads ∧ (∀ i < reads, (read i).isTerminal = false) ∧ sighting = .live

/-- The jobs that are read, where there is always one that goes on. -/
theorem exists_reads {current : Nat → Option Job} (first : ∃ j, current 0 = some j)
    (next : ∀ i j, current i = some j → ∃ j', current (i + 1) = some j' ∧ j.GoesOn j') :
    ∃ read : Nat → Job, (∀ i, current i = some (read i)) ∧ ∀ i, (read i).GoesOn (read (i + 1)) := by
  have some (i : Nat) : ∃ j, current i = some j := by
    induction i with
    | zero => exact first
    | succ i ih =>
      obtain ⟨j, hj⟩ := ih
      obtain ⟨j', hj', -⟩ := next i j hj
      exact ⟨j', hj'⟩
  choose read hread using some
  refine ⟨read, hread, fun i => ?_⟩
  obtain ⟨j', hj', goesOn⟩ := next i _ (hread i)
  obtain rfl := Option.some.inj ((hread (i + 1)).symm.trans hj')
  exact goesOn

section Reads

variable {read : Nat → Job} (goesOn : ∀ i, (read i).GoesOn (read (i + 1)))
include goesOn

theorem goesOn_of_le {i k : Nat} (h : i ≤ k) : (read i).GoesOn (read k) := by
  induction h with
  | refl => exact .refl _
  | step _ ih => exact ih.trans (goesOn _)

theorem pairwise_read (count : Nat) :
    ((List.range count).map read).Pairwise fun a b => b.id = a.id ∧ a.percent ≤ b.percent := by
  refine List.pairwise_map.2 (List.pairwise_lt_range.imp fun {i k} before => ?_)
  have later := goesOn_of_le goesOn (Nat.le_of_lt before)
  exact ⟨later.id, later.percent⟩

/-- What is reported of so many reads of a job that goes on is as it should be, if they stop where they
should. -/
theorem watched_of {reads count : Nat} {sighting : Sighting} (within : count ≤ reads)
    (begun : 0 < reads → 0 < count) (early : ∀ i, i + 1 < count → (read i).isTerminal = false)
    (closed : (∃ last, count = last + 1 ∧ (read last).isTerminal = true ∧
        (changes none ((List.range count).map read)).getLast? = some (read last) ∧
        sighting = .ended (read last)) ∨
      count = reads ∧ (∀ i < reads, (read i).isTerminal = false) ∧ sighting = .live) :
    Watched read reads count (changes none ((List.range count).map read)) sighting where
  within := within
  real := changes_sublist none _
  first some := by
    obtain ⟨n, rfl⟩ := Nat.exists_eq_add_one.2 (begun some)
    exact (head?_changes _).trans (by simp [List.range_succ_eq_map])
  apart := isChain_changes _
  whole i hi := exists_display _ none (List.mem_map_of_mem (List.mem_range.2 hi))
  rising := (pairwise_read goesOn count).sublist (changes_sublist none _)
  early := early
  closed := closed

/-- What is reported of the reads of a job that goes on. -/
theorem watched (reads : Nat) :
    ∃ count, Watched read reads count (changes none (sights read reads).1) (sights read reads).2 := by
  rcases sights_cases read reads with ⟨last, within, live, ended, seen⟩ | ⟨live, seen⟩
  · have closed : (changes none ((List.range (last + 1)).map read)).getLast? = some (read last) := by
      rw [List.range_succ, List.map_append]
      exact getLast?_changes _ none (by simpa using live) ended
    rw [seen]
    exact ⟨last + 1, watched_of goesOn within (fun _ => Nat.succ_pos last)
      (fun i hi => live i (Nat.lt_of_succ_lt_succ hi)) (.inl ⟨last, rfl, ended, closed, rfl⟩)⟩
  · rw [seen]
    exact ⟨reads, watched_of goesOn (Nat.le_refl _) id (fun i hi => live i (Nat.lt_of_succ_lt hi))
      (.inr ⟨rfl, live, rfl⟩)⟩

/-- Where the job has ended at a read that may be made, the watch ends by then. -/
theorem Watched.ended {reads count : Nat} {jobs : List Job} {sighting : Sighting}
    (watched : Watched read reads count jobs sighting) {i : Nat} (enough : i < reads)
    (terminal : (read i).isTerminal = true) : sighting = .ended (read i) ∧ count ≤ i + 1 := by
  have soon : count ≤ i + 1 := by
    by_contra late
    simp [watched.early i (by omega)] at terminal
  rcases watched.closed with ⟨last, rfl, ended, -, rfl⟩ | ⟨-, live, -⟩
  · rw [(goesOn_of_le goesOn (Nat.le_of_succ_le_succ soon)).ended ended]
    exact ⟨rfl, soon⟩
  · simp [live i enough] at terminal

end Reads

/-! ### Watches beside a session -/

/-- A watch reads the current job, and ends or pauses and goes on. -/
theorem exists_watch_eq (repositoryId : String) (interval reads : Nat) (last? : Option Job) :
    ∃ next : Except StoreError (Option Job) → Program Controls (List Job × Sighting),
      watch repositoryId interval (reads + 1) last? =
        .ask (.effect (.store (.currentJob repositoryId))) next ∧
      ∀ job, next (.ok (some job)) =
        let news := if last?.any (sameProgress job) then [] else [job]
        if job.isTerminal then .done (news, .ended job)
        else .ask (.pause interval) fun _ =>
          watch repositoryId interval reads (some job) >>= fun later =>
            .done (news ++ later.1, later.2) :=
  ⟨_, rfl, fun _ => rfl⟩

end Analysis

theorem Program.run_bind {S : Signature} {α β σ : Type}
    (answer : (r : S.Request) → σ → S.Reply r × σ) (p : Program S α) (f : α → Program S β) (s : σ) :
    (p >>= f).run answer s = (f (p.run answer s).1).run answer (p.run answer s).2 := by
  induction p generalizing s with
  | done a => rfl
  | ask r next ih => exact ih (answer r s).1 (answer r s).2

namespace Session

variable {c : Conditions} {repositoryId : String} {moment : Nat → Session}

/-- Sessions one after the other, in which a repository has the same current job. -/
structure Lasts (c : Conditions) (repositoryId : String) (moment : Nat → Session) : Prop where
  start : Reachable c (moment 0)
  steps : ∀ i, Steps c (moment i) (moment (i + 1))
  current : ∃ j, (moment 0).store.currentJob? repositoryId = some j
  same : ∀ i, ((moment i).store.jobsOf repositoryId).length =
    ((moment 0).store.jobsOf repositoryId).length

theorem Lasts.reachable (lasts : Lasts c repositoryId moment) (i : Nat) : Reachable c (moment i) := by
  induction i with
  | zero => exact lasts.start
  | succ i ih => exact ih.trans (lasts.steps i)

/-- The replies to a program that reads the store and pauses, at the moments to come; each pause leads
to the next one.  Nothing comes of anything else. -/
def serve (c : Conditions) : (r : Control) → (Nat → Session) → r.Reply × (Nat → Session)
  | .effect (.store call), moment => (((moment 0).store.perform c.names ⟨0, 0⟩ call).1, moment)
  | .effect (.call _ _), moment => (none, moment)
  | .pause _, moment => ((), fun i => moment (i + 1))
  | .start _, moment => ((), moment)
  | .running, moment => ((moment 0).registered.length, moment)
  | .join _, moment => (false, moment)

/-- The repository has a current job at each moment, which goes on from one moment to the next. -/
theorem Lasts.exists_read (lasts : Lasts c repositoryId moment) (inj : Function.Injective c.names.job)
    (indirect : ∀ id u, ¬c.begins (.store (.updateJob id u))) :
    ∃ read : Nat → Job, (∀ i, (moment i).store.currentJob? repositoryId = some (read i)) ∧
      ∀ i, (read i).GoesOn (read (i + 1)) := by
  refine exists_reads lasts.current fun i j current => ?_
  exact (lasts.steps i).current inj indirect (lasts.reachable i)
    ((lasts.same _).trans (lasts.same i).symm) current

/-- In the end of the job between two moments, it is as it is at the second one. -/
theorem Lasts.read_eq (lasts : Lasts c repositoryId moment) (inj : Function.Injective c.names.job)
    (indirect : ∀ id u, ¬c.begins (.store (.updateJob id u))) {i : Nat} {s : Session} {j : Job}
    (before : Steps c (moment i) s) (after : Steps c s (moment (i + 1)))
    (current : s.store.currentJob? repositoryId = some j) (terminal : j.isTerminal = true) :
    (moment (i + 1)).store.currentJob? repositoryId = some j := by
  have reachable := lasts.reachable i
  have grown := before.length_jobsOf_le inj indirect reachable repositoryId
  have more := after.length_jobsOf_le inj indirect (reachable.trans before) repositoryId
  have same := (lasts.same (i + 1)).trans (lasts.same i).symm
  obtain ⟨j', current', goesOn⟩ :=
    after.current inj indirect (reachable.trans before) (by omega) current
  rwa [goesOn.ended terminal] at current'

/-- A watch sees the current job of each moment. -/
theorem run_watch {read : Nat → Job}
    (current : ∀ i, (moment i).store.currentJob? repositoryId = some (read i)) (interval reads : Nat)
    (last? : Option Job) :
    ((watch repositoryId interval reads last?).run (serve c) moment).1 =
      (changes last? (sights read reads).1, (sights read reads).2) := by
  induction reads generalizing last? moment read with
  | zero => rfl
  | succ reads ih =>
    obtain ⟨next, watched, seen⟩ := exists_watch_eq repositoryId interval reads last?
    have reply : serve c (.effect (.store (.currentJob repositoryId))) moment =
        (.ok (some (read 0)), moment) := by
      rw [← current 0]
      rfl
    rw [watched, Program.run, reply]
    dsimp only
    rw [seen]
    dsimp only
    cases terminal : (read 0).isTerminal with
    | true =>
      rw [sights_of_ended terminal]
      simp [changes, Program.run]
    | false =>
      have later := ih (fun i => current (i + 1)) (some (read 0))
      rw [sights_of_live terminal, if_neg Bool.false_ne_true, Program.run]
      simp only [serve, Program.run_bind, later, Program.run, changes]

/-- What a watch beside a session reports, and when it ends. -/
theorem Lasts.watch (lasts : Lasts c repositoryId moment) (inj : Function.Injective c.names.job)
    (indirect : ∀ id u, ¬c.begins (.store (.updateJob id u))) (interval reads : Nat) :
    ∃ read count jobs sighting,
      ((Analysis.watch repositoryId interval reads none).run (serve c) moment).1 = (jobs, sighting) ∧
      (∀ i, (moment i).store.currentJob? repositoryId = some (read i)) ∧
      Watched read reads count jobs sighting ∧
      ∀ i s job, i + 1 < reads → Steps c (moment i) s → Steps c s (moment (i + 1)) →
        s.store.currentJob? repositoryId = some job → job.isTerminal = true →
          sighting = .ended job ∧ count ≤ i + 2 := by
  obtain ⟨read, current, goesOn⟩ := lasts.exists_read inj indirect
  obtain ⟨count, watched⟩ := watched goesOn reads
  refine ⟨read, count, _, _, run_watch current interval reads none, current, watched, ?_⟩
  intro i s job enough before after hjob terminal
  have same := lasts.read_eq inj indirect before after hjob terminal
  obtain rfl := Option.some.inj ((current (i + 1)).symm.trans same)
  exact watched.ended goesOn enough terminal

end Session

end RepoDocs
