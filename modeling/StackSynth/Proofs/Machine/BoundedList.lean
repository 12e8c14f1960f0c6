import Mathlib.Algebra.Group.Nat.Defs
import Mathlib.Data.List.Basic
import StackSynth.Machine.Stack

/-!
# The operand stack as a bounded list

Seen by a caller, a stack is a list of at most as many values as its ceiling, the value on top first.
`Call.onList` says what each call does to such a list. The stack does the same, whatever calls are
made one after another (`refines_bounded_list`), but for one of them: a pick at the depth that is the
largest machine word has nowhere to look and stops the program (`Call.stops`).

The simulation is one equation for each call (`Call.perform_eq`), which three short inductions carry
over to runs. How a call fails is read off the list (`Call.FailsCleanly`).
-/

namespace StackSynth

namespace Stack

variable {s s' : Stack} {depth : UInt64} {values : List Float} {limit : Nat}

/-- The values from top to bottom. -/
def fromTop (s : Stack) : List Float := s.toList.reverse

@[simp] theorem length_fromTop : s.fromTop.length = s.size := List.length_reverse

@[simp] theorem fromTop_withLimit : (withLimit limit).fromTop = [] := rfl

@[simp] theorem fromTop_mk {values : Array Float} {hpos hle hsize} :
    fromTop ⟨values, limit, hpos, hle, hsize⟩ = values.toList.reverse := rfl

/-- A place counted from the top. -/
theorem getElem?_fromTop {n : Nat} (h : n < s.size) :
    s.fromTop[n]? = s.values[s.size - 1 - n]? := by
  rw [fromTop, toList, List.getElem?_reverse h]
  exact Array.getElem?_toList

/-- A stack is its ceiling and the list of its values. -/
theorem eq_of_fromTop_eq (hlimit : s'.limit = s.limit) (hvalues : s'.fromTop = s.fromTop) :
    s' = s := by
  obtain ⟨values, limit, _, _, _⟩ := s
  obtain ⟨values', limit', _, _, _⟩ := s'
  obtain rfl : limit' = limit := hlimit
  obtain rfl : values' = values := Array.toList_inj.mp (List.reverse_injective hvalues)
  rfl

/-! ## Calls -/

/-- What a caller asks of a stack. The depth of a pick is a machine word. -/
inductive Call where
  | push (x : Float)
  | pop
  | pop2
  | peek
  | pick (depth : UInt64)
  | clear
  | size

/-- What a call answers if it does not fail. -/
inductive Reply where
  | done
  | value (x : Float)
  | pair (a b : Float)
  | count (n : Nat)

/-- The answer to a call. -/
abbrev Answer := Except StackError Reply

/-- What an operation answers and leaves. -/
@[simp]
def answering {α : Type} (reply : α → Reply) (op : StackM α) (s : Stack) : Answer × Stack :=
  ((op s).1.map reply, (op s).2)

/-- The answer to a look at a value that may not be there. -/
def found : Option Float → Answer
  | some x => .ok (.value x)
  | none => .error .underflow

namespace Call

/-- What the stack answers to a call, and the stack afterwards, unless the call stops the program. -/
def perform (s : Stack) : Call → Option (Answer × Stack)
  | push x => some (answering (fun _ ↦ .done) (StackM.push x) s)
  | pop => some (answering .value StackM.pop s)
  | pop2 => some (answering (fun (a, b) ↦ .pair a b) StackM.pop2 s)
  | peek => some (answering .value StackM.peek s)
  | pick depth => (s.pick? depth).map fun result ↦ (result.map .value, s)
  | clear => some (answering (fun _ ↦ .done) StackM.clear s)
  | size => some (answering .count StackM.size s)

/-- Whether a call stops the program: a pick at the largest machine word does. -/
def stops : Call → Bool
  | pick depth => depth.toNat = 2 ^ 64 - 1
  | _ => false

/-- What a call answers and leaves of a list of at most `limit` values, the top one first. -/
def onList (limit : Nat) (values : List Float) : Call → Answer × List Float
  | push x =>
    if values.length < limit then (.ok .done, x :: values)
    else (.error (.overflow limit), values)
  | pop => (found values.head?, values.tail)
  | pop2 =>
    match values with
    | b :: a :: rest => (.ok (.pair a b), rest)
    | _ => (.error .underflow, values)
  | peek => (found values.head?, values)
  | pick depth => (found values[depth.toNat]?, values)
  | clear => (.ok .done, [])
  | size => (.ok (.count values.length), values)

/-- How many values a call needs. -/
def needs : Call → Nat
  | push _ | clear | size => 0
  | pop | peek => 1
  | pop2 => 2
  | pick depth => depth.toNat + 1

end Call

/-! ## One call -/

/-- A depth that is a machine word is a depth like any other, except for the largest. There the way
back from the end has wrapped around to zero, and the program stops behind the last value. -/
theorem pick?_eq : s.pick? depth =
    if depth.toNat = 2 ^ 64 - 1 then none else some (StackM.pick depth.toNat s).1 := by
  have hback : (depth + 1).toNat = (depth.toNat + 1) % 2 ^ 64 := UInt64.toNat_add depth 1
  split
  next hlast =>
    rw [hlast] at hback
    simp [pick?, hback, size]
  next hlast =>
    have hlt := depth.toNat_lt
    rw [Nat.mod_eq_of_lt (by omega)] at hback
    rw [pick?, hback, size, StackM.pick]
    by_cases hsize : depth.toNat < s.values.size
    · have hle : depth.toNat + 1 ≤ s.values.size := hsize
      have hplace : s.values.size - (depth.toNat + 1) < s.values.size := by omega
      rw [if_pos hle, dif_pos hsize, Array.getElem?_eq_getElem hplace]
      simp only [Option.map_some, Nat.sub_sub, Nat.add_comm 1]
    · have hnot : ¬ depth.toNat + 1 ≤ s.values.size := hsize
      rw [if_neg hnot, dif_neg hsize]

/-- A pick looks down the list. -/
theorem map_pick {n : Nat} : (StackM.pick n s).1.map Reply.value = found s.fromTop[n]? := by
  by_cases hsize : n < s.values.size
  · have hplace : s.values.size - 1 - n < s.values.size := by omega
    rw [getElem?_fromTop hsize, size, Array.getElem?_eq_getElem hplace, StackM.pick, dif_pos hsize]
    rfl
  · have hlength : s.fromTop.length ≤ n := by
      rw [length_fromTop]
      exact Nat.le_of_not_lt hsize
    rw [List.getElem?_eq_none hlength, StackM.pick, dif_neg hsize]
    rfl

theorem pick_snd {n : Nat} : (StackM.pick n s).2 = s := by
  rw [StackM.pick]
  split <;> rfl

namespace Call

variable {call : Call}

/-- A call that does not stop the program does to the stack what it does to the list. -/
theorem perform_eq (s : Stack) (hgoes : call.stops = false) :
    ∃ s', call.perform s = some ((call.onList s.limit s.fromTop).1, s') ∧ s'.limit = s.limit ∧
      s'.fromTop = (call.onList s.limit s.fromTop).2 := by
  obtain ⟨values, limit, hpos, hle, hsize⟩ := s
  obtain ⟨top, rfl⟩ : ∃ top : List Float, values = top.reverse.toArray :=
    ⟨values.toList.reverse, by simp⟩
  cases call with
  | push x =>
    by_cases hroom : top.length < limit <;>
      simp [perform, onList, StackM.push, Except.map, hroom]
  | pop => cases top <;> simp [perform, onList, StackM.pop, Except.map, found]
  | pop2 =>
    match top with
    | [] | [_] | _ :: _ :: _ => simp [perform, onList, StackM.pop2, Except.map]
  | peek =>
    refine ⟨_, ?_, rfl, rfl⟩
    rw [perform, onList, List.head?_eq_getElem?, ← map_pick, answering, StackM.peek, pick_snd]
  | pick depth =>
    refine ⟨_, ?_, rfl, rfl⟩
    rw [perform, onList, ← map_pick, pick?_eq, if_neg (of_decide_eq_false hgoes)]
    rfl
  | clear => exact ⟨_, rfl, rfl, rfl⟩
  | size =>
    refine ⟨_, ?_, rfl, rfl⟩
    rw [perform, onList, length_fromTop]
    rfl

/-- Whether a call stops the program does not depend on the stack. -/
theorem perform_eq_none_iff : call.perform s = none ↔ call.stops = true := by
  constructor
  · intro hnone
    cases hgoes : call.stops with
    | true => rfl
    | false =>
      obtain ⟨s', hperform, -⟩ := perform_eq s hgoes
      rw [hnone] at hperform
      cases hperform
  · intro hstops
    cases call with
    | pick depth => rw [perform, pick?_eq, if_pos (of_decide_eq_true hstops), Option.map_none]
    | _ => cases hstops

/-! ## Failures -/

/-- How a call goes on a list: there are too few values, or no room, or it has a reply. -/
theorem onList_cases (limit : Nat) (values : List Float) (call : Call) :
    (values.length < call.needs ∧ call.onList limit values = (.error .underflow, values)) ∨
      ((∃ x, call = push x) ∧ limit ≤ values.length ∧
        call.onList limit values = (.error (.overflow limit), values)) ∨
      (call.needs ≤ values.length ∧ ((∃ x, call = push x) → values.length < limit) ∧
        ∃ reply, (call.onList limit values).1 = .ok reply) := by
  cases call with
  | push x =>
    by_cases hroom : values.length < limit <;> simp [onList, needs, hroom, Nat.le_of_not_lt]
  | pop | peek => cases values <;> simp [onList, needs, found]
  | pop2 =>
    match values with
    | [] | [_] | _ :: _ :: _ => simp [onList, needs]
  | pick depth =>
    rcases Nat.lt_or_ge depth.toNat values.length with hdepth | hdepth
    · refine .inr (.inr ⟨hdepth, nofun, .value values[depth.toNat], ?_⟩)
      rw [onList, List.getElem?_eq_getElem hdepth, found]
    · refine .inl ⟨Nat.lt_succ_of_le hdepth, ?_⟩
      rw [onList, List.getElem?_eq_none hdepth, found]
  | clear | size => simp [onList, needs]

/-- What a caller can rely on when a call fails: there are too few values for what it needs, or it
is a push at the ceiling, and the stack is what it was. -/
structure FailsCleanly (call : Call) (s : Stack) (answer : Answer) (s' : Stack) : Prop where
  underflow_iff : answer = .error .underflow ↔ s.size < call.needs
  overflow_iff : answer = .error (.overflow s.limit) ↔ (∃ x, call = push x) ∧ s.size = s.limit
  unchanged : ∀ e, answer = .error e → s' = s

theorem failsCleanly {answer : Answer} (h : call.perform s = some (answer, s')) :
    call.FailsCleanly s answer s' := by
  have hgoes : call.stops = false := by
    rw [← Bool.not_eq_true, ← perform_eq_none_iff (s := s), h]
    exact Option.some_ne_none _
  obtain ⟨t, hperform, hlimit, hvalues⟩ := perform_eq s hgoes
  obtain ⟨hanswer, rfl⟩ : answer = (call.onList s.limit s.fromTop).1 ∧ s' = t := by
    rw [h] at hperform
    simpa using hperform
  rcases onList_cases s.limit s.fromTop call with
    ⟨hfew, hcall⟩ | ⟨⟨x, rfl⟩, hfull, hcall⟩ | ⟨henough, hroom, reply, hcall⟩
  · rw [hcall] at hanswer hvalues
    subst hanswer
    rw [length_fromTop] at hfew
    refine ⟨iff_of_true rfl hfew, iff_of_false nofun ?_, fun _ _ ↦ eq_of_fromTop_eq hlimit hvalues⟩
    rintro ⟨⟨x, rfl⟩, -⟩
    exact Nat.not_lt_zero _ hfew
  · rw [hcall] at hanswer hvalues
    subst hanswer
    rw [length_fromTop] at hfull
    exact ⟨iff_of_false nofun (Nat.not_lt_zero _),
      iff_of_true rfl ⟨⟨x, rfl⟩, Nat.le_antisymm s.size_le hfull⟩,
      fun _ _ ↦ eq_of_fromTop_eq hlimit hvalues⟩
  · rw [hcall] at hanswer
    subst hanswer
    rw [length_fromTop] at henough hroom
    exact ⟨iff_of_false nofun (Nat.not_lt.mpr henough),
      iff_of_false nofun fun ⟨hpush, hfull⟩ ↦ Nat.ne_of_lt (hroom hpush) hfull, nofun⟩

end Call

/-! ## One call after another -/

/-- The answers to calls, and the stack after the last of them. A call that stops the program has no
answer, there are no calls after it, and no stack is left. -/
def run (s : Stack) : List Call → List Answer × Option Stack
  | [] => ([], some s)
  | call :: calls =>
    match call.perform s with
    | some (answer, s') => (answer :: (run s' calls).1, (run s' calls).2)
    | none => ([], none)

/-- The answers to calls on a list of at most `limit` values, and the list after the last of them. -/
def runOnList (limit : Nat) (values : List Float) : List Call → List Answer × List Float
  | [] => ([], values)
  | call :: calls =>
    let after := runOnList limit (call.onList limit values).2 calls
    ((call.onList limit values).1 :: after.1, after.2)

variable {call : Call} {calls : List Call}

theorem run_cons_of_stops (h : call.stops = true) : run s (call :: calls) = ([], none) := by
  rw [run, Call.perform_eq_none_iff.mpr h]

theorem run_cons (s : Stack) (calls : List Call) (h : call.stops = false) :
    ∃ s', s'.limit = s.limit ∧ s'.fromTop = (call.onList s.limit s.fromTop).2 ∧ run s (call :: calls)
      = ((call.onList s.limit s.fromTop).1 :: (run s' calls).1, (run s' calls).2) := by
  obtain ⟨s', hperform, hlimit, hvalues⟩ := Call.perform_eq s h
  exact ⟨s', hlimit, hvalues, by rw [run, hperform]⟩

/-- The stack answers as the list does, up to a call that stops the program. -/
theorem answers_run : (run s calls).1
    = (runOnList s.limit s.fromTop (calls.takeWhile fun call ↦ !call.stops)).1 := by
  induction calls generalizing s with
  | nil => rfl
  | cons call calls ih =>
    cases hcall : call.stops with
    | true =>
      rw [run_cons_of_stops hcall, List.takeWhile_cons_of_neg (by simp [hcall])]
      rfl
    | false =>
      obtain ⟨s', hlimit, hvalues, hrun⟩ := run_cons s calls hcall
      rw [hrun, List.takeWhile_cons_of_pos (by simp [hcall]), runOnList, ← hvalues, ← hlimit, ih]

/-- A run leaves no stack exactly if one of its calls stops the program. -/
theorem run_eq_none_iff : (run s calls).2 = none ↔ ∃ call ∈ calls, call.stops = true := by
  induction calls generalizing s with
  | nil => simp [run]
  | cons call calls ih =>
    rw [List.exists_mem_cons_iff]
    cases hcall : call.stops with
    | true => simp [run_cons_of_stops hcall]
    | false =>
      obtain ⟨s', -, -, hrun⟩ := run_cons s calls hcall
      simp [hrun, ih]

/-- The stack that a run leaves holds the values of the list that it leaves. -/
theorem fromTop_run (h : (run s calls).2 = some s') :
    s'.limit = s.limit ∧ s'.fromTop = (runOnList s.limit s.fromTop calls).2 := by
  induction calls generalizing s with
  | nil =>
    obtain rfl : s = s' := Option.some.inj h
    exact ⟨rfl, rfl⟩
  | cons call calls ih =>
    cases hcall : call.stops with
    | true =>
      rw [run_cons_of_stops hcall] at h
      cases h
    | false =>
      obtain ⟨t, hlimit, hvalues, hrun⟩ := run_cons s calls hcall
      rw [hrun] at h
      rw [runOnList, ← hvalues, ← hlimit]
      exact ih h

/-- **A stack is a bounded list.** Ask a new stack for any ceiling, and call it in any way: it
answers as a list of at most `ceiling` values does, up to the first pick at the largest depth, which
stops the program. If there is none, the values that are left are those of the list and never more
than the ceiling. A further call then fails only for want of values or of room, and changes nothing
if it does. -/
theorem refines_bounded_list (limit : Nat) (calls : List Call) :
    let ceiling := max 1 (min limit (2 ^ 20))
    (run (withLimit limit) calls).1
        = (runOnList ceiling [] (calls.takeWhile fun call ↦ !call.stops)).1 ∧
      ((run (withLimit limit) calls).2 = none ↔ ∃ call ∈ calls, call.stops = true) ∧
      ∀ s, (run (withLimit limit) calls).2 = some s →
        s.limit = ceiling ∧ s.fromTop = (runOnList ceiling [] calls).2 ∧ s.size ≤ ceiling ∧
        ∀ call : Call, (call.perform s = none ↔ call.stops = true) ∧
          ∀ answer s', call.perform s = some (answer, s') → call.FailsCleanly s answer s' := by
  intro ceiling
  have hceiling : (withLimit limit).limit = ceiling := rfl
  refine ⟨?_, run_eq_none_iff, fun s hs ↦ ?_⟩
  · rw [answers_run, hceiling, fromTop_withLimit]
  · obtain ⟨hlimit, hvalues⟩ := fromTop_run hs
    rw [hceiling] at hlimit hvalues
    exact ⟨hlimit, hvalues, hlimit ▸ s.size_le, fun call ↦
      ⟨Call.perform_eq_none_iff, fun _ _ ↦ Call.failsCleanly⟩⟩

/-- A stack for two values refuses a third, and shows no more than those two. -/
theorem refines_bounded_list_full :
    let calls : List Call := [.push 1, .push 2, .push 3, .pick 1, .pick 2, .pop2, .pop, .size]
    ∃ s, (run (withLimit 2) calls).2 = some s ∧ s.limit = 2 ∧ s.fromTop = [] ∧
      (run (withLimit 2) calls).1 = [.ok .done, .ok .done, .error (.overflow 2), .ok (.value 1),
        .error .underflow, .ok (.pair 1 2), .error .underflow, .ok (.count 0)] := by
  intro calls
  obtain ⟨hanswers, hstops, hleft⟩ := refines_bounded_list 2 calls
  obtain ⟨s, hs⟩ : ∃ s, (run (withLimit 2) calls).2 = some s :=
    Option.ne_none_iff_exists'.mp fun hnone ↦ by simpa [calls, Call.stops] using hstops.mp hnone
  obtain ⟨hlimit, hvalues, -⟩ := hleft s hs
  exact ⟨s, hs, hlimit, hvalues, hanswers⟩

/-- The largest depth stops the program even on an empty stack, where an empty list just has no value
to show. -/
theorem pick_at_largest_stops :
    let calls := [Call.pick 0xffffffffffffffff]
    (runOnList 1024 [] calls).1 = [.error .underflow] ∧
      run (withLimit 1024) calls = ([], none) := by
  intro calls
  exact ⟨rfl, run_cons_of_stops (by decide)⟩

end Stack

end StackSynth
