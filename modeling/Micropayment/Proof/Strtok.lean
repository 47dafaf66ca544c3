import Micropayment.Lib.Cell
import Micropayment.Text

/-!
# Parsing in several threads

`strtok` keeps its saved position in one place for the whole process, so the `split` loops of all
worker threads share it. Here each `strtok` call is one step. `parse_unmixed`: as long as every
`strtok(NULL, ..)` finds the position that its own thread left, each thread's `parse_command`
returns what it returns alone. `mixed_messages` is a run in which two threads take over each
other's text.
-/

set_option autoImplicit false

namespace Micropayment

/-- A call of `split` in a thread: before its first `strtok`, in the loop, or returned. -/
inductive Splitting where
  | start
  | running (arr : List Str)
  | returned (arr : List Str)
  deriving DecidableEq

/-- What follows a `strtok` call that returns `current`. -/
def Splitting.turn (arr : List Str) (current : Option Str) : Splitting :=
  match current with
  | some tok => running (arr ++ [tok])
  | none => returned arr

/-- The next `strtok` call of a thread that splits `cmd`. -/
def splitStep (sep cmd : Str) (x : Splitting) (saved : Str) : Option (Splitting × Str) :=
  match x with
  | .start => let r := strtok sep (cStr cmd); some (.turn [] r.1, r.2)
  | .running arr => let r := strtok sep saved; some (.turn arr r.1, r.2)
  | .returned _ => none

/-- Worker threads that parse, with the saved position of `strtok` in the cell. -/
abbrev Parsers (ι : Type) := Cell ι Str Splitting

section
variable {ι : Type} (cmds : ι → Str)

/-- The next `strtok` call of thread `i`, which parses `cmds i`. -/
def parseAct (i : ι) : Splitting → Str → Option (Splitting × Str) :=
  splitStep "#".toList (cmds i)

def parsersInit : Parsers ι := .init (fun _ => .start) []

/-- Every thread whose `split` has returned gets the command it gets alone. -/
def Unmixed (c : Parsers ι) : Prop :=
  ∀ i arr, c.thread i = .returned arr → (cmdType arr, arr) = parseCommand (cmds i)

end

/-- Alone, a thread has the first tokens of its text, and the rest is in the saved position. -/
theorem Solo.tokens {ι : Type} {cmds : ι → Str} {i : ι} {x : Splitting} {saved : Str}
    (h : Solo (parseAct cmds) (fun _ => .start) i x saved) :
    (∃ arr, x = .running arr ∧
      split (cmds i) "#".toList = arr ++ fields (· ∈ "#".toList) saved) ∨
    x = .returned (split (cmds i) "#".toList) := by
  -- one `strtok` call on `text`, after the tokens `arr`
  have hturn : ∀ arr text, split (cmds i) "#".toList = arr ++ fields (· ∈ "#".toList) text →
      (∃ arr', .turn arr (strtok "#".toList text).1 = Splitting.running arr' ∧
        split (cmds i) "#".toList =
          arr' ++ fields (· ∈ "#".toList) (strtok "#".toList text).2) ∨
      .turn arr (strtok "#".toList text).1 = Splitting.returned (split (cmds i) "#".toList) := by
    intro arr text hsplit
    rcases strtok_spec "#".toList text with ⟨hf, hs⟩ | ⟨tok, rest, hs, -, hf⟩
    · rw [hf, List.append_nil] at hsplit
      exact .inr (by rw [hs, hsplit]; rfl)
    · refine .inl ⟨arr ++ [tok], by rw [hs]; rfl, ?_⟩
      rw [hsplit, hf, hs, List.append_assoc]
      rfl
  induction h with
  | first hact =>
    obtain ⟨rfl, rfl⟩ := Prod.mk.inj (Option.some.inj hact)
    exact hturn [] _ (split_eq_fields _ _)
  | next _ hact ih =>
    rcases ih with ⟨arr, rfl, hsplit⟩ | rfl
    · obtain ⟨rfl, rfl⟩ := Prod.mk.inj (Option.some.inj hact)
      exact hturn arr _ hsplit
    · cases hact

/-- **Concurrent parsing does not mix messages** along every interleaving in which each
`strtok(NULL, ..)` finds the position that its own thread left. -/
theorem parse_unmixed {ι : Type} [DecidableEq ι] {cmds : ι → Str} {sched : List ι} {c : Parsers ι}
    (h : Run (Cell.exec (parseAct cmds)) (Cell.AsLeft fun _ => .start) parsersInit sched c) :
    Unmixed cmds c := by
  intro i arr hret
  rcases Cell.solo h i with hstart | hsolo
  · rw [hret] at hstart
    cases hstart
  · rw [hret] at hsolo
    rcases Solo.tokens hsolo with ⟨arr', hrun, -⟩ | hret'
    · cases hrun
    · cases hret'
      rfl

/-! ## Two messages -/

section
/-- Two transfers, parsed by two threads. -/
def twoCommands (i : Bool) : Str := if i then "a#5#b".toList else "c#900#d".toList

/-- One parse after the other. -/
theorem parse_unmixed_two :
    ∃ c, Run (Cell.exec (parseAct twoCommands)) (Cell.AsLeft fun _ => .start) parsersInit
      [true, true, true, true, false, false, false, false] c ∧ Unmixed twoCommands c := by
  obtain ⟨c, -, h⟩ := Run.of_allowed (by decide +kernel : allowed (Cell.exec (parseAct twoCommands))
    (Cell.AsLeft fun _ => .start) parsersInit
    [true, true, true, true, false, false, false, false] = true)
  exact ⟨c, h, parse_unmixed h⟩

/-- The second parse begins before the first has its amount: the first one's transfer of 5 coins
from `a` to `b` becomes one of 900 from `a` to `d`. -/
theorem mixed_messages :
    ∃ c, Run (Cell.exec (parseAct twoCommands)) Any parsersInit [true, false, true, true, true] c ∧
      c.thread true = .returned [['a'], "900".toList, ['d']] ∧ ¬ Unmixed twoCommands c := by
  have hend : (runAll (Cell.exec (parseAct twoCommands)) parsersInit
      [true, false, true, true, true]).map (fun c => c.thread true) =
        some (.returned [['a'], "900".toList, ['d']]) := by decide +kernel
  obtain ⟨c, hc, hret⟩ := Option.map_eq_some_iff.1 hend
  refine ⟨c, Run.of_runAll hc, hret, fun h => ?_⟩
  have hmixed := h true _ hret
  exact absurd hmixed (by decide +kernel)

end

end Micropayment
