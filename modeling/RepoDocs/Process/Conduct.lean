import RepoDocs.Process.Program

/-! How long it takes to reply: a request is replied to after some time or never, and a program of
requests takes the times of all of them. -/

namespace RepoDocs

/-- How a call goes: it replies after some milliseconds, or never. -/
inductive Conduct (α : Type) where
  | after (ms : Nat) (reply : α)
  | never

/-- How a call goes that is given up on at a deadline. -/
def Conduct.within (deadline? : Option Nat) : Conduct α → Conduct (Option α)
  | after ms reply =>
    match deadline? with
    | none => after ms (some reply)
    | some limit => if ms ≤ limit then after ms (some reply) else after limit none
  | never =>
    match deadline? with
    | none => never
    | some limit => after limit none

/-- How a program goes whose requests go one after the other. -/
def Program.conduct (answer : (r : S.Request) → σ → Conduct (S.Reply r) × σ) :
    Program S α → σ → Conduct α × σ
  | done a, s => (.after 0 a, s)
  | ask r next, s =>
    match answer r s with
    | (.never, s) => (.never, s)
    | (.after ms reply, s) =>
      match (next reply).conduct answer s with
      | (.never, s) => (.never, s)
      | (.after more a, s) => (.after (ms + more) a, s)

end RepoDocs
