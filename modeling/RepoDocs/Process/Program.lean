/-! Programs that ask the world around them and go on with the reply.  A program is a tree: at each
node it asks one thing, and each reply leads to a subtree. -/

namespace RepoDocs

/-- What may be asked, and the type of the reply to each request. -/
structure Signature where
  Request : Type
  Reply : Request → Type

/-- A program that makes requests of a signature and ends with an `α`. -/
inductive Program (S : Signature) (α : Type) : Type where
  | done (a : α)
  | ask (r : S.Request) (next : S.Reply r → Program S α)

namespace Program

variable {S T : Signature} {α β σ : Type}

/-- Go on with another program at the end. -/
def bind (p : Program S α) (f : α → Program S β) : Program S β :=
  match p with
  | done a => f a
  | ask r next => ask r fun x => (next x).bind f

instance : Monad (Program S) where
  pure := done
  bind := bind

/-- Ask one thing and end with the reply. -/
def request (r : S.Request) : Program S (S.Reply r) := ask r done

/-- The same program where requests go by another name. -/
def rename (f : S.Request → T.Request) (reply : ∀ r, T.Reply (f r) → S.Reply r) :
    Program S α → Program T α
  | done a => done a
  | ask r next => ask (f r) fun x => (next (reply r x)).rename f reply

/-- Run a program in a world that replies to each request from its state. -/
def run (answer : (r : S.Request) → σ → S.Reply r × σ) : Program S α → σ → α × σ
  | done a, s => (a, s)
  | ask r next, s =>
    let (x, s) := answer r s
    (next x).run answer s

end Program

/-- A program that may fail. -/
abbrev Attempt (ε : Type) (S : Signature) := ExceptT ε (Program S)

end RepoDocs
