import StackSynth.Machine.Builtin
import StackSynth.Proofs.Language.Definitions
import StackSynth.Proofs.Machine.Activations

/-!
# Stack effects

The comment `a b -- b a` at a word says which values the word takes off the top of the stack and
which it leaves in their place. `StackEffect` is such a comment as data, and `Builtin.effects` is
the list of the comments of all built-in natives but `clear`, which takes whatever there is.

A native that a comment describes fails only in the two ways the comment foresees
(`StackEffect.Describes`). With fewer values than it takes it underflows and has done nothing. With
too little room for what it leaves it overflows, and the values it takes are back in their place;
only `tuck` puts them back the other way round. Everything below the values it takes is never
touched.
-/

namespace StackSynth

variable {σ α β ε : Type}

/-! ## Stacks with given values -/

namespace Stack

/-- The stack with other values, from bottom to top, under the same ceiling. -/
def holding (s : Stack) (values : List Float) (h : values.length ≤ s.limit) : Stack :=
  { s with values := values.toArray, size_le := h }

theorem length_toList (s : Stack) : s.toList.length = s.size := rfl

end Stack

/-! ## One action after another -/

namespace RunM

variable {x : ExceptT ε (StateM (Bench σ)) α} {y : α → ExceptT ε (StateM (Bench σ)) β}
  {bench bench' : Bench σ}

theorem bind_of_ok {a : α} (h : x bench = (.ok a, bench')) : (x >>= y) bench = y a bench' := by
  rw [bind_apply, h]

theorem bind_of_error {e : ε} (h : x bench = (.error e, bench')) :
    (x >>= y) bench = (.error e, bench') := by
  rw [bind_apply, h]

end RunM

/-! ## Single operations -/

namespace Native

variable {s : Stack} {rig : Rig σ} {values below : List Float} {a b : Float}

theorem push_of_lt {h : values.length ≤ s.limit} (hroom : values.length < s.limit) (x : Float) :
    (push x : NativeM σ Unit) ⟨s.holding values h, rig⟩
      = (.ok (), ⟨s.holding (values ++ [x]) (by rw [List.length_append]; exact hroom), rig⟩) := by
  have hlt : (s.holding values h).values.size < (s.holding values h).limit := hroom
  simp only [push, onStack, StackM.push, dif_pos hlt]
  simp [Stack.holding]

/-- A push on values that have been pushed before. -/
theorem push_above {above : List Float} {h : (below ++ above).length ≤ s.limit}
    {h' : (below ++ (above ++ [a])).length ≤ s.limit} :
    (push a : NativeM σ Unit) ⟨s.holding (below ++ above) h, rig⟩
      = (.ok (), ⟨s.holding (below ++ (above ++ [a])) h', rig⟩) := by
  have hroom : (below ++ above).length < s.limit := by
    simp only [List.length_append, List.length_singleton] at h' ⊢
    omega
  rw [push_of_lt hroom]
  simp only [List.append_assoc]

theorem push_of_le {bench : Bench σ} (hfull : bench.stack.limit ≤ bench.stack.size) (x : Float) :
    (push x : NativeM σ Unit) bench = (.error (.overflow bench.stack.limit), bench) := by
  have hnot : ¬ bench.stack.values.size < bench.stack.limit := Nat.not_lt.mpr hfull
  simp only [push, onStack, StackM.push, dif_neg hnot]

theorem pop_holding {h : (below ++ [a]).length ≤ s.limit} (h' : below.length ≤ s.limit) :
    (pop : NativeM σ Float) ⟨s.holding (below ++ [a]) h, rig⟩
      = (.ok a, ⟨s.holding below h', rig⟩) := by
  simp [pop, onStack, StackM.pop, Stack.holding]

theorem pop_of_lt {bench : Bench σ} (hsize : bench.stack.size < 1) :
    (pop : NativeM σ Float) bench = (.error .underflow, bench) := by
  have hnot : ¬ 0 < bench.stack.values.size := Nat.not_lt.mpr (Nat.le_of_lt_succ hsize)
  simp only [pop, onStack, StackM.pop, dif_neg hnot]

theorem pop2_holding {h : (below ++ [a, b]).length ≤ s.limit} (h' : below.length ≤ s.limit) :
    (pop2 : NativeM σ (Float × Float)) ⟨s.holding (below ++ [a, b]) h, rig⟩
      = (.ok (a, b), ⟨s.holding below h', rig⟩) := by
  simp [pop2, onStack, StackM.pop2, Stack.holding]

/-- A pop of two values above others that will be taken next. -/
theorem pop2_above (above : List Float) {h : (below ++ (above ++ [a, b])).length ≤ s.limit}
    {h' : (below ++ above).length ≤ s.limit} :
    (pop2 : NativeM σ (Float × Float)) ⟨s.holding (below ++ (above ++ [a, b])) h, rig⟩
      = (.ok (a, b), ⟨s.holding (below ++ above) h', rig⟩) := by
  simp only [← List.append_assoc]
  exact pop2_holding h'

theorem pop2_of_lt {bench : Bench σ} (hsize : bench.stack.size < 2) :
    (pop2 : NativeM σ (Float × Float)) bench = (.error .underflow, bench) := by
  have hnot : ¬ 2 ≤ bench.stack.values.size := Nat.not_le.mpr hsize
  simp only [pop2, onStack, StackM.pop2, dif_neg hnot]

theorem pick_holding (above : List Float) {h : (below ++ a :: above).length ≤ s.limit} :
    (onStack (StackM.pick above.length) : NativeM σ Float) ⟨s.holding (below ++ a :: above) h, rig⟩
      = (.ok a, ⟨s.holding (below ++ a :: above) h, rig⟩) := by
  have hlt : above.length < (s.holding (below ++ a :: above) h).values.size := by
    simp [Stack.holding]
    omega
  simp only [onStack, StackM.pick, dif_pos hlt]
  simp [Stack.holding]

theorem pick_of_lt {bench : Bench σ} {depth : Nat} (hsize : bench.stack.size < depth + 1) :
    (onStack (StackM.pick depth) : NativeM σ Float) bench = (.error .underflow, bench) := by
  have hnot : ¬ depth < bench.stack.values.size := Nat.not_lt.mpr (Nat.le_of_lt_succ hsize)
  simp only [onStack, StackM.pick, dif_neg hnot]

end Native

/-! ## Effects -/

/-- The comment at a word as data. -/
structure StackEffect (σ : Type) where
  /-- How many values the word takes. -/
  takes : Nat
  /-- How many values it leaves in their place. -/
  leaves : Nat
  /-- The values it leaves, which may depend on the bench it finds. -/
  results : Bench σ → Vector Float takes → Vector Float leaves
  /-- The order in which the values it takes are back when there is no room for the results. -/
  spilled : Vector Float takes → Vector Float takes := id
  /-- What it does to the rig. -/
  rig : Vector Float takes → Rig σ → Rig σ := fun _ p ↦ p

namespace StackEffect

/-- `a -- x`, where `x` is a function of `a`. -/
def one (f : Float → Float) : StackEffect σ where
  takes := 1
  leaves := 1
  results _ v := #v[f v[0]]

/-- `a b -- x`, where `x` is a function of `a` and `b`. -/
def two (f : Float → Float → Float) : StackEffect σ where
  takes := 2
  leaves := 1
  results _ v := #v[f v[0] v[1]]

/-- A native does what a comment says, on every bench. -/
structure Describes (e : StackEffect σ) (act : Native σ) : Prop where
  underflows : ∀ bench, bench.stack.size < e.takes → act bench = (.error .underflow, bench)
  overflows : ∀ (bench : Bench σ) (below : List Float) (taken : Vector Float e.takes),
    bench.stack.toList = below ++ taken.toList → bench.stack.limit < below.length + e.leaves →
    ∃ h, act bench = (.error (.overflow bench.stack.limit),
      ⟨bench.stack.holding (below ++ (e.spilled taken).toList) h, bench.rig⟩)
  fits : ∀ (bench : Bench σ) (below : List Float) (taken : Vector Float e.takes),
    bench.stack.toList = below ++ taken.toList → below.length + e.leaves ≤ bench.stack.limit →
    ∃ h, act bench = (.ok (),
      ⟨bench.stack.holding (below ++ (e.results bench taken).toList) h, e.rig taken bench.rig⟩)

namespace Describes

variable {e : StackEffect σ} {act : Native σ}

/-- A bench seen as what is taken from it and what is below. -/
theorem exists_holding {bench : Bench σ} {values : List Float}
    (hvalues : bench.stack.toList = values) :
    ∃ h, bench = ⟨bench.stack.holding values h, bench.rig⟩ := by
  subst hvalues
  exact ⟨bench.stack.size_le, rfl⟩

theorem length_append_toList {n : Nat} (below : List Float) (taken : Vector Float n) :
    (below ++ taken.toList).length = below.length + n := by
  rw [List.length_append, Vector.length_toList]

/-- A word that leaves no more than it takes never overflows. -/
theorem of_le (hle : e.leaves ≤ e.takes)
    (hunder : ∀ bench : Bench σ, bench.stack.size < e.takes →
      act bench = (.error .underflow, bench))
    (hact : ∀ (s : Stack) (rig : Rig σ) (below : List Float) (taken : Vector Float e.takes),
      below.length + e.takes ≤ s.limit → ∀ h h', act ⟨s.holding (below ++ taken.toList) h, rig⟩
        = (.ok (), ⟨s.holding (below ++ (e.results ⟨s.holding (below ++ taken.toList) h, rig⟩
          taken).toList) h', e.rig taken rig⟩)) : e.Describes act := by
  refine ⟨hunder, ?_, ?_⟩ <;> intro bench below taken hvalues hroom <;>
    obtain ⟨h, heq⟩ := exists_holding hvalues <;>
    have hsize := h <;> rw [length_append_toList] at hsize
  · exact absurd hroom (Nat.not_lt.mpr (Nat.le_trans (Nat.add_le_add_left hle _) hsize))
  -- What is left fits where more has been.
  · have hfits := hact bench.stack bench.rig below taken hsize h
    simp only [← heq] at hfits
    rw [← length_append_toList below (e.results bench taken)] at hroom
    exact ⟨hroom, hfits hroom⟩

/-- A word that puts one more value on top of those that it takes overflows on a full stack. -/
theorem of_push (hleaves : e.leaves = e.takes + 1) (hspilled : ∀ taken, e.spilled taken = taken)
    (hrig : ∀ taken p, e.rig taken p = p)
    (hunder : ∀ bench : Bench σ, bench.stack.size < e.takes →
      act bench = (.error .underflow, bench))
    (hact : ∀ (s : Stack) (rig : Rig σ) (below : List Float) (taken : Vector Float e.takes) h, ∃ x,
      act ⟨s.holding (below ++ taken.toList) h, rig⟩
        = Native.push x ⟨s.holding (below ++ taken.toList) h, rig⟩ ∧
      (e.results ⟨s.holding (below ++ taken.toList) h, rig⟩ taken).toList = taken.toList ++ [x]) :
    e.Describes act := by
  refine ⟨hunder, ?_, ?_⟩ <;> intro bench below taken hvalues hroom <;>
    obtain ⟨h, heq⟩ := exists_holding hvalues <;>
    obtain ⟨x, hpush, hresults⟩ := hact bench.stack bench.rig below taken h <;>
    rw [hleaves, ← Nat.add_assoc, ← length_append_toList below taken] at hroom
  · have hfull : bench.stack.limit ≤ bench.stack.size := by
      rw [← bench.stack.length_toList, hvalues]
      exact Nat.le_of_lt_succ hroom
    simp only [hspilled, ← heq] at hpush ⊢
    exact ⟨h, hpush.trans (Native.push_of_le hfull x)⟩
  · have hfree : (below ++ (taken.toList ++ [x])).length ≤ bench.stack.limit := by
      rw [← List.append_assoc, List.length_append]
      exact hroom
    have hpushed : Native.push x ⟨bench.stack.holding (below ++ taken.toList) h, bench.rig⟩
        = (.ok (), ⟨bench.stack.holding _ hfree, bench.rig⟩) := Native.push_above
    simp only [← heq] at hpush hresults hpushed
    simp only [hresults, hrig]
    exact ⟨hfree, hpush.trans hpushed⟩

/-- Enough values are some that are taken and some below them. -/
theorem exists_taken {n : Nat} {stack : Stack} (h : n ≤ stack.size) :
    ∃ below, ∃ taken : Vector Float n, stack.toList = below ++ taken.toList ∧
      stack.size = below.length + n := by
  have hlength : (stack.toList.drop (stack.size - n)).toArray.size = n := by
    rw [List.size_toArray, List.length_drop, stack.length_toList]
    omega
  have hvalues := (List.take_append_drop (stack.size - n) stack.toList).symm
  refine ⟨_, ⟨_, hlength⟩, hvalues, ?_⟩
  rw [List.length_take, stack.length_toList]
  omega

/-- Whether and how a word fails hangs on the number of values and on the ceiling alone. -/
theorem fst_apply (h : e.Describes act) (bench : Bench σ) :
    (act bench).1 =
      if bench.stack.size < e.takes then .error .underflow
      else if bench.stack.limit < bench.stack.size - e.takes + e.leaves then
        .error (.overflow bench.stack.limit)
      else .ok () := by
  by_cases hsize : bench.stack.size < e.takes
  · rw [if_pos hsize, h.underflows bench hsize]
  · obtain ⟨below, taken, hvalues, hlength⟩ := exists_taken (Nat.not_lt.mp hsize)
    rw [if_neg hsize]
    by_cases hroom : bench.stack.limit < bench.stack.size - e.takes + e.leaves
    · obtain ⟨_, hact⟩ := h.overflows bench below taken hvalues (by omega)
      rw [if_pos hroom, hact]
    · obtain ⟨_, hact⟩ := h.fits bench below taken hvalues (by omega)
      rw [if_neg hroom, hact]

theorem underflow_iff (h : e.Describes act) (bench : Bench σ) :
    (act bench).1 = .error .underflow ↔ bench.stack.size < e.takes := by
  rw [h.fst_apply]
  split
  next hsize => simp [hsize]
  next hsize => split <;> simp [hsize]

theorem overflow_iff (h : e.Describes act) (bench : Bench σ) :
    (∃ limit, (act bench).1 = .error (.overflow limit)) ↔
      e.takes ≤ bench.stack.size ∧ bench.stack.limit < bench.stack.size - e.takes + e.leaves := by
  rw [h.fst_apply]
  split
  next hsize => simp [Nat.not_le.mpr hsize]
  next hsize =>
    rw [Nat.not_lt] at hsize
    split
    next hroom => simp [hsize, hroom]
    next hroom => simp [hroom]

/-- What overflows leaves more than it takes. -/
theorem lt_leaves (h : e.Describes act) {bench : Bench σ} {limit : Nat}
    (hover : (act bench).1 = .error (.overflow limit)) : e.takes < e.leaves := by
  obtain ⟨hsize, hroom⟩ := (h.overflow_iff bench).mp ⟨limit, hover⟩
  have hle : bench.stack.size ≤ bench.stack.limit := bench.stack.size_le
  omega

/-- What puts the values that it takes back as they were has done nothing when it overflows. -/
theorem snd_of_overflow (h : e.Describes act) (hspilled : ∀ taken, e.spilled taken = taken)
    {bench : Bench σ} {limit : Nat} (hover : (act bench).1 = .error (.overflow limit)) :
    (act bench).2 = bench := by
  obtain ⟨hsize, hroom⟩ := (h.overflow_iff bench).mp ⟨limit, hover⟩
  obtain ⟨below, taken, hvalues, hlength⟩ := exists_taken hsize
  obtain ⟨h', hact⟩ := h.overflows bench below taken hvalues (by omega)
  obtain ⟨_, heq⟩ := exists_holding hvalues
  simp only [hspilled, ← heq] at hact
  rw [hact]

end Describes

end StackEffect

/-! ## The built-in words -/

namespace Builtin

open Native RunM StackEffect

/-- The comments of the words that compute. -/
def arithmeticEffects : List (String × StackEffect σ) :=
  [("neg", .one fun a ↦ -a),
   ("abs", .one fun a ↦ a.abs),
   ("floor", .one fun a ↦ Double.floor a),
   ("sin", .one fun a ↦ a.sin),
   ("cos", .one fun a ↦ a.cos),
   ("tanh", .one fun a ↦ a.tanh),
   ("exp", .one fun a ↦ a.exp),
   ("sqrt", .one fun a ↦ a.sqrt),
   ("not", .one fun a ↦ if a == 0 then 1 else 0),
   ("+", .two fun a b ↦ a + b),
   ("-", .two fun a b ↦ a - b),
   ("*", .two fun a b ↦ a * b),
   ("/", .two fun a b ↦ if b == 0 then 0 else a / b),
   ("mod", .two fun a b ↦ if b == 0 then 0 else Double.euclid a b),
   ("min", .two fun a b ↦ Double.least a b),
   ("max", .two fun a b ↦ Double.greatest a b),
   ("pow", .two fun a b ↦ a.pow b),
   ("<", .two fun a b ↦ if a < b then 1 else 0),
   (">", .two fun a b ↦ if a > b then 1 else 0),
   ("=", .two fun a b ↦ if a == b then 1 else 0),
   ("<=", .two fun a b ↦ if a ≤ b then 1 else 0),
   (">=", .two fun a b ↦ if a ≥ b then 1 else 0),
   ("and", .two fun a b ↦ if a != 0 && b != 0 then 1 else 0),
   ("or", .two fun a b ↦ if a != 0 || b != 0 then 1 else 0)]

/-- `c a b -- x` -/
def selectEffect : StackEffect σ where
  takes := 3
  leaves := 1
  results _ v := #v[if v[0] != 0 then v[1] else v[2]]

/-- `a -- a a` -/
def dupEffect : StackEffect σ where
  takes := 1
  leaves := 2
  results _ v := #v[v[0], v[0]]

/-- `a --` -/
def dropEffect : StackEffect σ where
  takes := 1
  leaves := 0
  results _ _ := #v[]

/-- `a b -- b a` -/
def swapEffect : StackEffect σ where
  takes := 2
  leaves := 2
  results _ v := #v[v[1], v[0]]

/-- `a b -- a b a` -/
def overEffect : StackEffect σ where
  takes := 2
  leaves := 3
  results _ v := #v[v[0], v[1], v[0]]

/-- `a b c -- b c a` -/
def rotEffect : StackEffect σ where
  takes := 3
  leaves := 3
  results _ v := #v[v[1], v[2], v[0]]

/-- `a b -- b` -/
def nipEffect : StackEffect σ where
  takes := 2
  leaves := 1
  results _ v := #v[v[1]]

/-- `a b -- b a b`. On a full stack the two values are left exchanged. -/
def tuckEffect : StackEffect σ where
  takes := 2
  leaves := 3
  results _ v := #v[v[1], v[0], v[1]]
  spilled v := #v[v[1], v[0]]

/-- `-- n`, where `n` is the number of values on the stack. -/
def depthEffect : StackEffect σ where
  takes := 0
  leaves := 1
  results bench _ := #v[.ofNat bench.stack.size]

/-- `-- 0/1` -/
def playingEffect : StackEffect σ where
  takes := 0
  leaves := 1
  results bench _ := #v[if bench.rig.playing then 1 else 0]

/-- `a --`, and the sample nearest to `a` is written into the rig. -/
def outEffect (write : Sample → Rig σ → Rig σ) : StackEffect σ where
  takes := 1
  leaves := 0
  results _ _ := #v[]
  rig v := write (.ofDouble v[0])

/-- The comments of the words that move values about, read the transport or write the outputs. -/
def movingEffects : List (String × StackEffect σ) :=
  [("?", selectEffect), ("dup", dupEffect), ("drop", dropEffect), ("swap", swapEffect),
   ("over", overEffect), ("rot", rotEffect), ("nip", nipEffect), ("tuck", tuckEffect),
   ("depth", depthEffect), ("playing?", playingEffect),
   (">out1", outEffect fun x p ↦ { p with left := x }),
   (">out2", outEffect fun x p ↦ { p with right := x })]

/-- The comments of all built-in natives but `clear`. -/
def effects : List (String × StackEffect σ) := arithmeticEffects ++ movingEffects

theorem exists_one (v : Vector α 1) : ∃ a, v = #v[a] := by
  obtain ⟨⟨values⟩, h⟩ := v
  match values, h with
  | [a], _ => exact ⟨a, rfl⟩

theorem exists_two (v : Vector α 2) : ∃ a b, v = #v[a, b] := by
  obtain ⟨⟨values⟩, h⟩ := v
  match values, h with
  | [a, b], _ => exact ⟨a, b, rfl⟩

theorem exists_three (v : Vector α 3) : ∃ a b c, v = #v[a, b, c] := by
  obtain ⟨⟨values⟩, h⟩ := v
  match values, h with
  | [a, b, c], _ => exact ⟨a, b, c, rfl⟩

theorem describes_one (f : Float → Float) : (one f : StackEffect σ).Describes (unary f) := by
  refine .of_le (Nat.le_refl 1) (fun bench h ↦ bind_of_error (pop_of_lt h)) ?_
  intro s rig below taken (hbelow : below.length + 1 ≤ s.limit) h h'
  obtain ⟨a, rfl⟩ := exists_one taken
  exact (bind_of_ok (pop_holding (by omega))).trans (push_of_lt hbelow (f a))

theorem describes_two (f : Float → Float → Float) :
    (two f : StackEffect σ).Describes (binary f) := by
  refine .of_le (Nat.le_succ 1) (fun bench h ↦ bind_of_error (pop2_of_lt h)) ?_
  intro s rig below taken (hbelow : below.length + 2 ≤ s.limit) h h'
  obtain ⟨a, b, rfl⟩ := exists_two taken
  exact (bind_of_ok (pop2_holding (by omega))).trans (push_of_lt (by omega) (f a b))

theorem describes_select : (selectEffect : StackEffect σ).Describes select := by
  refine .of_le (show 1 ≤ 3 by decide) (fun bench h ↦ bind_of_error (pick_of_lt h)) ?_
  intro s rig below taken (hbelow : below.length + 3 ≤ s.limit) h h'
  obtain ⟨c, a, b, rfl⟩ := exists_three taken
  calc select ⟨s.holding (below ++ [c, a, b]) h, rig⟩
      = (do let p ← pop2; let c ← pop; push (if isTrue c then p.1 else p.2))
          ⟨s.holding (below ++ [c, a, b]) h, rig⟩ := bind_of_ok (pick_holding [a, b])
    _ = (do let c ← pop; push (if isTrue c then a else b))
          ⟨s.holding (below ++ [c]) (by simp; omega), rig⟩ := bind_of_ok (pop2_above [c])
    _ = push (if isTrue c then a else b) ⟨s.holding below (by omega), rig⟩ :=
      bind_of_ok (pop_holding _)
    _ = (.ok (), ⟨s.holding (below ++ [if c != 0 then a else b]) h', rig⟩) :=
      push_of_lt (by omega) _

theorem describes_dup : (dupEffect : StackEffect σ).Describes dup := by
  refine .of_push rfl (fun _ ↦ rfl) (fun _ _ ↦ rfl) (fun bench h ↦ bind_of_error (pick_of_lt h)) ?_
  intro s rig below taken h
  obtain ⟨a, rfl⟩ := exists_one taken
  exact ⟨a, bind_of_ok (pick_holding []), rfl⟩

theorem describes_drop : (dropEffect : StackEffect σ).Describes drop := by
  refine .of_le (show 0 ≤ 1 by decide) (fun bench h ↦ bind_of_error (pop_of_lt h)) ?_
  intro s rig below taken (hbelow : below.length + 1 ≤ s.limit) h h'
  obtain ⟨a, rfl⟩ := exists_one taken
  calc drop ⟨s.holding (below ++ [a]) h, rig⟩
      = (.ok (), ⟨s.holding below (by omega), rig⟩) := bind_of_ok (pop_holding _)
    _ = (.ok (), ⟨s.holding (below ++ []) h', rig⟩) := by simp only [List.append_nil]

theorem describes_swap : (swapEffect : StackEffect σ).Describes swap := by
  refine .of_le (show 2 ≤ 2 by decide) (fun bench h ↦ bind_of_error (pop2_of_lt h)) ?_
  intro s rig below taken (hbelow : below.length + 2 ≤ s.limit) h h'
  obtain ⟨a, b, rfl⟩ := exists_two taken
  calc swap ⟨s.holding (below ++ [a, b]) h, rig⟩
      = (do push b; push a) ⟨s.holding below (by omega), rig⟩ := bind_of_ok (pop2_holding _)
    _ = push a ⟨s.holding (below ++ [b]) (by simp; omega), rig⟩ :=
      bind_of_ok (push_of_lt (by omega) b)
    _ = (.ok (), ⟨s.holding (below ++ [b, a]) h', rig⟩) := push_above

theorem describes_copySecond : (overEffect : StackEffect σ).Describes copySecond := by
  refine .of_push rfl (fun _ ↦ rfl) (fun _ _ ↦ rfl) (fun bench h ↦ bind_of_error (pick_of_lt h)) ?_
  intro s rig below taken h
  obtain ⟨a, b, rfl⟩ := exists_two taken
  exact ⟨a, bind_of_ok (pick_holding [b]), rfl⟩

theorem describes_rot : (rotEffect : StackEffect σ).Describes rot := by
  refine .of_le (show 3 ≤ 3 by decide) (fun bench h ↦ bind_of_error (pick_of_lt h)) ?_
  intro s rig below taken (hbelow : below.length + 3 ≤ s.limit) h h'
  obtain ⟨a, b, c, rfl⟩ := exists_three taken
  calc rot ⟨s.holding (below ++ [a, b, c]) h, rig⟩
      = (do let p ← pop2; let _ ← pop; push p.1; push p.2; push a)
          ⟨s.holding (below ++ [a, b, c]) h, rig⟩ := bind_of_ok (pick_holding [b, c])
    _ = (do let _ ← pop; push b; push c; push a)
          ⟨s.holding (below ++ [a]) (by simp; omega), rig⟩ := bind_of_ok (pop2_above [a])
    _ = (do push b; push c; push a) ⟨s.holding below (by omega), rig⟩ := bind_of_ok (pop_holding _)
    _ = (do push c; push a) ⟨s.holding (below ++ [b]) (by simp; omega), rig⟩ :=
      bind_of_ok (push_of_lt (by omega) b)
    _ = push a ⟨s.holding (below ++ [b, c]) (by simp; omega), rig⟩ := bind_of_ok push_above
    _ = (.ok (), ⟨s.holding (below ++ [b, c, a]) h', rig⟩) := push_above

theorem describes_nip : (nipEffect : StackEffect σ).Describes nip := by
  refine .of_le (show 1 ≤ 2 by decide) (fun bench h ↦ bind_of_error (pop2_of_lt h)) ?_
  intro s rig below taken (hbelow : below.length + 2 ≤ s.limit) h h'
  obtain ⟨a, b, rfl⟩ := exists_two taken
  exact (bind_of_ok (pop2_holding (by omega))).trans (push_of_lt (by omega) b)

/-- The two values are off the stack and back again before it shows that there is no room for three.
-/
theorem exists_tuck_eq {bench : Bench σ} {below : List Float} {a b : Float}
    (hvalues : bench.stack.toList = below ++ [a, b]) :
    ∃ h', tuck bench = push b ⟨bench.stack.holding (below ++ [b, a]) h', bench.rig⟩ := by
  obtain ⟨h, heq⟩ := Describes.exists_holding hvalues
  have hbelow : below.length + 2 ≤ bench.stack.limit := by simpa using h
  refine ⟨by simpa using hbelow, ?_⟩
  calc tuck bench
      = tuck ⟨bench.stack.holding (below ++ [a, b]) h, bench.rig⟩ := by rw [← heq]
    _ = (do push b; push a; push b) ⟨bench.stack.holding below (by omega), bench.rig⟩ :=
      bind_of_ok (pop2_holding _)
    _ = (do push a; push b) ⟨bench.stack.holding (below ++ [b]) (by simp; omega), bench.rig⟩ :=
      bind_of_ok (push_of_lt (by omega) b)
    _ = push b ⟨bench.stack.holding (below ++ [b, a]) (by simpa using hbelow), bench.rig⟩ :=
      bind_of_ok push_above

theorem describes_tuck : (tuckEffect : StackEffect σ).Describes tuck := by
  refine ⟨fun bench h ↦ bind_of_error (pop2_of_lt h), ?_, ?_⟩ <;>
    intro bench below taken hvalues hroom <;>
    obtain ⟨a, b, rfl⟩ := exists_two taken <;>
    obtain ⟨h', htuck⟩ := exists_tuck_eq hvalues
  · have hfull : bench.stack.limit ≤ (below ++ [b, a]).length := by
      rw [List.length_append]
      exact Nat.le_of_lt_succ hroom
    exact ⟨h', htuck.trans (push_of_le hfull b)⟩
  · have hfree : (below ++ [b, a, b]).length ≤ bench.stack.limit := by
      rw [List.length_append]
      exact hroom
    exact ⟨hfree, htuck.trans push_above⟩

theorem describes_depth : (depthEffect : StackEffect σ).Describes depth := by
  refine .of_push rfl (fun _ ↦ rfl) (fun _ _ ↦ rfl) (fun bench h ↦ absurd h (Nat.not_lt_zero _)) ?_
  intro s rig below taken h
  obtain rfl : taken = #v[] := Vector.eq_empty
  exact ⟨_, bind_of_ok rfl, rfl⟩

theorem describes_playing : (playingEffect : StackEffect σ).Describes playing := by
  refine .of_push rfl (fun _ ↦ rfl) (fun _ _ ↦ rfl) (fun bench h ↦ absurd h (Nat.not_lt_zero _)) ?_
  intro s rig below taken h
  obtain rfl : taken = #v[] := Vector.eq_empty
  exact ⟨_, bind_of_ok rfl, rfl⟩

theorem describes_out (write : Sample → Rig σ → Rig σ) :
    (outEffect write).Describes
      (do let x ← pop; onRig fun p ↦ ((), write (.ofDouble x) p) : NativeM σ Unit) := by
  refine .of_le (show 0 ≤ 1 by decide) (fun bench h ↦ bind_of_error (pop_of_lt h)) ?_
  intro s rig below taken (hbelow : below.length + 1 ≤ s.limit) h h'
  obtain ⟨a, rfl⟩ := exists_one taken
  calc (do let x ← pop; onRig fun p ↦ ((), write (.ofDouble x) p) : NativeM σ Unit)
        ⟨s.holding (below ++ [a]) h, rig⟩
      = (.ok (), ⟨s.holding below (by omega), write (.ofDouble a) rig⟩) :=
        bind_of_ok (pop_holding _)
    _ = (.ok (), ⟨s.holding (below ++ []) h', write (.ofDouble a) rig⟩) := by
      simp only [List.append_nil]

/-! ## The dictionary of the built-in words -/

theorem exists_describes : ∀ word ∈ (effects : List (String × StackEffect σ)),
    ∃ act, (word.1, .native act) ∈ entries ∧ word.2.Describes act := by
  -- The computing words come from two tables, and all others are taken one by one.
  have harithmetic : (arithmeticEffects : List (String × StackEffect σ))
      = unaryWords.map (fun word ↦ (word.1, one word.2))
        ++ binaryWords.map (fun word ↦ (word.1, two word.2)) := by
    simp only [arithmeticEffects, unaryWords, binaryWords, List.map_cons, List.map_nil,
      List.cons_append, List.nil_append, Double.ofBool, decide_eq_true_eq]
    rfl
  have hmoving : ∀ word ∈ (movingEffects : List (String × StackEffect σ)),
      ∃ act, (word.1, act) ∈ stackWords ++ rigWords ∧ word.2.Describes act := by
    simp only [movingEffects, List.forall_mem_cons]
    exact ⟨⟨_, by simp [stackWords], describes_select⟩, ⟨_, by simp [stackWords], describes_dup⟩,
      ⟨_, by simp [stackWords], describes_drop⟩, ⟨_, by simp [stackWords], describes_swap⟩,
      ⟨_, by simp [stackWords], describes_copySecond⟩, ⟨_, by simp [stackWords], describes_rot⟩,
      ⟨_, by simp [stackWords], describes_nip⟩, ⟨_, by simp [stackWords], describes_tuck⟩,
      ⟨_, by simp [stackWords], describes_depth⟩, ⟨_, by simp [rigWords], describes_playing⟩,
      ⟨outLeft, by simp [rigWords], describes_out _⟩,
      ⟨outRight, by simp [rigWords], describes_out _⟩, nofun⟩
  rw [effects, harithmetic, List.forall_mem_append, List.forall_mem_append, List.forall_mem_map,
    List.forall_mem_map]
  refine ⟨⟨fun word hword ↦ ?_, fun word hword ↦ ?_⟩, fun word hword ↦ ?_⟩
  · refine ⟨unary word.2, ?_, describes_one _⟩
    simp only [entries, List.mem_append]
    exact .inl (.inl (.inl (List.mem_map_of_mem hword)))
  · refine ⟨binary word.2, ?_, describes_two _⟩
    simp only [entries, List.mem_append]
    exact .inl (.inl (.inr (List.mem_map_of_mem hword)))
  · obtain ⟨act, hact, hdescribes⟩ := hmoving word hword
    refine ⟨act, ?_, hdescribes⟩
    rw [entries, List.mem_append, List.mem_append]
    exact .inl (.inr (List.mem_map.mpr ⟨_, hact, rfl⟩))

theorem nodup_entries : ((entries : List (String × Operation σ)).map Prod.fst).Nodup := by
  -- The names are the same whatever the modules are, so they are compared where there are none.
  have hnames : (entries : List (String × Operation σ)).map Prod.fst
      = (entries : List (String × Operation Unit)).map Prod.fst := rfl
  rw [hnames]
  decide

theorem lookup_dictionary {name : String} {op : Operation σ} :
    dictionary.lookup name = some op ↔ (name, op) ∈ entries := by
  constructor
  · intro h
    rw [dictionary, Dictionary.lookup_defineAll, Dictionary.lookup, Dictionary.empty,
      Std.HashMap.getElem?_empty, Option.or_none] at h
    obtain ⟨before, after, heq, -⟩ := List.lookup_eq_some_iff.mp h
    rw [← List.mem_reverse, heq]
    exact List.mem_append_right _ List.mem_cons_self
  · exact Dictionary.empty.lookup_defineAll_of_mem nodup_entries

/-- All natives but `clear` have a comment. -/
theorem mem_effects_of_native {name : String} {act : Native σ}
    (h : dictionary.lookup name = some (.native act)) :
    name = "clear" ∨ name ∈ (effects : List (String × StackEffect σ)).map Prod.fst := by
  have hnames : ∀ name ∈ (entries : List (String × Operation Unit)).map Prod.fst,
      name = "clear" ∨ name ∈ (effects : List (String × StackEffect Unit)).map Prod.fst ∨
        name ∈ ["pi", "tau"] := by decide
  have hconstant : name ∉ ["pi", "tau"] := by
    simp only [List.mem_cons, List.not_mem_nil, or_false]
    rintro (rfl | rfl)
    · have hpi : dictionary.lookup "pi" = some (.constant pi : Operation σ) :=
        lookup_dictionary.mpr (by simp [entries])
      cases h.symm.trans hpi
    · have htau : dictionary.lookup "tau" = some (.constant tau : Operation σ) :=
        lookup_dictionary.mpr (by simp [entries])
      cases h.symm.trans htau
  rcases hnames name (List.mem_map_of_mem (f := Prod.fst) (lookup_dictionary.mp h)) with h | h | h
  · exact .inl h
  · exact .inr h
  · exact absurd h hconstant

theorem mem_of_takes_lt_leaves : ∀ word ∈ (effects : List (String × StackEffect σ)),
    word.2.takes < word.2.leaves → word.1 ∈ ["dup", "over", "tuck", "depth", "playing?"] := by
  simp [effects, arithmeticEffects, movingEffects, one, two, selectEffect, dupEffect, dropEffect,
    swapEffect, overEffect, rotEffect, nipEffect, tuckEffect, depthEffect, playingEffect, outEffect]

theorem spilled_of_ne_tuck : ∀ word ∈ (effects : List (String × StackEffect σ)),
    word.1 ≠ "tuck" → ∀ taken, word.2.spilled taken = taken := by
  simp [effects, arithmeticEffects, movingEffects, one, two, selectEffect, dupEffect, dropEffect,
    swapEffect, overEffect, rotEffect, nipEffect, depthEffect, playingEffect, outEffect]

/-- **The built-in natives do what their comments say.** A comment describes its native on every
bench; the native underflows exactly if values are missing, and overflows exactly if the results
have no room, which happens to five of the words only. Only `tuck` has then changed anything. There
are no natives without a comment but `clear`, which empties the stack. -/
theorem native_effects :
    (∀ name e, (name, e) ∈ (effects : List (String × StackEffect σ)) → ∃ act,
      dictionary.lookup name = some (.native act) ∧ e.Describes act ∧
      (∀ bench, (act bench).1 = .error .underflow ↔ bench.stack.size < e.takes) ∧
      (∀ bench, (∃ limit, (act bench).1 = .error (.overflow limit)) ↔ e.takes ≤ bench.stack.size ∧
        bench.stack.limit < bench.stack.size - e.takes + e.leaves) ∧
      (∀ bench limit, (act bench).1 = .error (.overflow limit) →
        name ∈ ["dup", "over", "tuck", "depth", "playing?"] ∧
        (name ≠ "tuck" → (act bench).2 = bench))) ∧
    (∃ act, dictionary.lookup "clear" = some (.native act) ∧ ∀ bench : Bench σ,
      act bench = (.ok (), ⟨bench.stack.holding [] (Nat.zero_le _), bench.rig⟩)) ∧
    ∀ (name : String) (act : Native σ), dictionary.lookup name = some (.native act) →
      name = "clear" ∨ name ∈ (effects : List (String × StackEffect σ)).map Prod.fst := by
  refine ⟨fun name e hmem ↦ ?_, ⟨clear, lookup_dictionary.mpr ?_, fun _ ↦ rfl⟩,
    fun _ _ ↦ mem_effects_of_native⟩
  · obtain ⟨act, hact, hdescribes⟩ := exists_describes (name, e) hmem
    refine ⟨act, lookup_dictionary.mpr hact, hdescribes, hdescribes.underflow_iff,
      hdescribes.overflow_iff, fun bench limit hover ↦ ⟨?_, fun hne ↦ ?_⟩⟩
    · exact mem_of_takes_lt_leaves _ hmem (hdescribes.lt_leaves hover)
    · exact hdescribes.snd_of_overflow (spilled_of_ne_tuck _ hmem hne) hover
  · simp [entries, stackWords]

/-- On a stack for three values that is full, `tuck` exchanges the two on top and overflows. -/
theorem native_effects_tuck :
    ("tuck", tuckEffect) ∈ (effects : List (String × StackEffect Unit)) ∧
    ∃ act : Native Unit, dictionary.lookup "tuck" = some (.native act) ∧
      ("tuck" = "clear" ∨ "tuck" ∈ (effects : List (String × StackEffect Unit)).map Prod.fst) ∧
      act ⟨(Stack.withLimit 3).holding [1, 2, 3] (by decide), { modules := () }⟩
        = (.error (.overflow 3),
          ⟨(Stack.withLimit 3).holding [1, 3, 2] (by decide), { modules := () }⟩) := by
  have hmem : ("tuck", tuckEffect) ∈ (effects : List (String × StackEffect Unit)) := by
    simp [effects, movingEffects]
  obtain ⟨act, hlookup, hdescribes, -⟩ := native_effects.1 "tuck" tuckEffect hmem
  obtain ⟨_, hact⟩ := hdescribes.overflows
    ⟨(Stack.withLimit 3).holding [1, 2, 3] (by decide), { modules := () }⟩ [1] #v[2, 3] rfl
    (by decide)
  exact ⟨hmem, act, hlookup, native_effects.2.2 "tuck" act hlookup, hact⟩

end Builtin

end StackSynth
