import StackSynth.Proofs.Machine.Keeping

/-!
# What a channel is left with

One native writes the left output register and one the right, each with the value that it pops, and
whatever else a program does leaves both registers alone. So a run that goes through leaves in a
register the sample of the last value that its native has popped, or what was there before the run
if that native was never gotten to (`LastOut`).
-/

namespace StackSynth

variable {σ : Type}

/-- What the last visit of the native `out` has popped, as a sample; without such a visit, what was
there before. -/
inductive LastOut (out : Native σ) (start : Sample) : List (Primitive σ × Bench σ) → Sample → Prop
  | popped (before : List (Primitive σ × Bench σ)) {after : List (Primitive σ × Bench σ)}
      {name : String} {bench : Bench σ} {x : Float}
      (hx : bench.stack.toList.getLast? = some x)
      (hafter : ∀ name bench, (.native name out, bench) ∉ after) :
      LastOut out start (before ++ (.native name out, bench) :: after) (.ofDouble x)
  | kept {visits : List (Primitive σ × Bench σ)}
      (h : ∀ name bench, (.native name out, bench) ∉ visits) : LastOut out start visits start

namespace LastOut

variable {out : Native σ} {start sample : Sample} {visits : List (Primitive σ × Bench σ)}

theorem cons_of_ne (h : LastOut out start visits sample) {s : Primitive σ} (bench : Bench σ)
    (hs : ∀ name, s ≠ .native name out) : LastOut out start ((s, bench) :: visits) sample := by
  cases h with
  | popped before hx hafter =>
    exact .popped ((s, bench) :: before) hx hafter
  | kept hvisits =>
    refine .kept fun name bench' hmem ↦ ?_
    rcases List.mem_cons.mp hmem with heq | hmem
    · exact hs name (congrArg Prod.fst heq).symm
    · exact hvisits name bench' hmem

theorem cons_out {x : Float} (h : LastOut out (.ofDouble x) visits sample) {name : String}
    {bench : Bench σ} (hx : bench.stack.toList.getLast? = some x) :
    LastOut out start ((.native name out, bench) :: visits) sample := by
  cases h with
  | popped before hy hafter =>
    exact .popped ((.native name out, bench) :: before) hy hafter
  | kept hvisits => exact .popped [] hx hvisits

end LastOut

/-- The native writes the sample of the value on top of the stack into a register. -/
def Native.Writes (register : Rig σ → Sample) (out : Native σ) : Prop :=
  ∀ bench bench', out bench = (.ok (), bench') →
    ∃ x, bench.stack.toList.getLast? = some x ∧ register bench'.rig = .ofDouble x

theorem Native.apply_of_blame {act : Native σ} {word : String} {bench bench' : Bench σ}
    (h : blame word act bench = (.ok (), bench')) : act bench = (.ok (), bench') := by
  rw [blame] at h
  split at h
  next a bench₁ hact =>
    cases h
    exact hact
  next => cases h

theorem Primitive.lastOut_of_runAll {register : Rig σ → Sample} {out : Native σ}
    (hout : Native.Writes register out) {steps : List (Primitive σ)}
    (hsteps : ∀ name act, .native name act ∈ steps → act = out ∨ Keeps register act)
    {bench bench' : Bench σ} (hrun : runAll steps bench = (.ok (), bench')) :
    LastOut out (register bench.rig) (visits steps bench) (register bench'.rig) := by
  induction steps generalizing bench with
  | nil =>
    cases hrun
    exact .kept fun name bench' ↦ List.not_mem_nil
  | cons s rest ih =>
    rw [runAll, RunM.bind_apply] at hrun
    rw [visits]
    -- the step itself goes through, for the run does
    obtain ⟨middle, hs⟩ : ∃ middle, s.run bench = (.ok (), middle) := by
      generalize s.run bench = result at hrun
      obtain ⟨fault | _, middle⟩ := result
      · cases hrun
      · exact ⟨middle, rfl⟩
    rw [hs] at hrun ⊢
    have hrest := ih (fun name act hmem ↦ hsteps name act (List.mem_cons_of_mem _ hmem)) hrun
    by_cases hname : ∃ name, s = .native name out
    · obtain ⟨name, rfl⟩ := hname
      obtain ⟨x, hx, hwritten⟩ := hout bench middle (Native.apply_of_blame hs)
      rw [hwritten] at hrest
      exact hrest.cons_out hx
    · have hne : ∀ name, s ≠ .native name out := fun name heq ↦ hname ⟨name, heq⟩
      have hkeeps : Keeps register s.run := by
        refine keeps_run fun name act heq ↦ ?_
        refine (hsteps name act (heq ▸ List.mem_cons_self)).resolve_left ?_
        rintro rfl
        exact hne name heq
      have hkept := hkeeps bench
      rw [hs] at hkept
      rw [hkept] at hrest
      exact hrest.cons_of_ne bench hne

/-- A run leaves a register as its native has last written it. -/
theorem Program.lastOut_of_run {register : Rig σ → Sample} {out : Native σ}
    (hout : Native.Writes register out) {p : Program σ}
    (hp : Program.Uses (fun act ↦ act = out ∨ Keeps register act) p) {bench bench' : Bench σ}
    (hrun : Program.run p bench = (.ok (), bench')) :
    LastOut out (register bench.rig) (Program.visits p bench) (register bench'.rig) := by
  rw [Program.run_eq_runAll] at hrun
  rw [Program.visits_eq_visits]
  exact Primitive.lastOut_of_runAll hout (fun _ _ hmem ↦ hp.of_mem_expand hmem) hrun

theorem Native.of_pop_eq_ok {bench bench' : Bench σ} {x : Float}
    (h : Native.pop bench = (.ok x, bench')) : bench.stack.toList.getLast? = some x := by
  rw [Native.pop, Native.onStack, StackM.pop] at h
  by_cases hsize : 0 < bench.stack.values.size
  · rw [dif_pos hsize] at h
    cases h
    rw [Stack.toList, Array.getLast?_toList, Array.back?_eq_getElem?, Array.getElem?_eq_getElem]
  · rw [dif_neg hsize] at h
    cases h

/-- What pops a value and writes its sample into a register is a native for that register. -/
theorem Native.writes_of_bind {register : Rig σ → Sample} {f : Float → Rig σ → Unit × Rig σ}
    (h : ∀ x p, register (f x p).2 = .ofDouble x) :
    Native.Writes register (do let x ← Native.pop; Native.onRig (f x) : NativeM σ Unit) := by
  intro bench bench' hrun
  rw [RunM.bind_apply] at hrun
  cases hpop : (Native.pop : NativeM σ Float) bench with
  | mk result middle =>
    rw [hpop] at hrun
    cases result with
    | error e => cases hrun
    | ok x =>
      refine ⟨x, Native.of_pop_eq_ok hpop, ?_⟩
      cases hrun
      exact h x middle.rig

/-! ## The two channels -/

/-- A native that writes one of the output registers with what it pops, or leaves both alone. -/
def Native.Orderly (act : Native σ) : Prop :=
  act = Builtin.outLeft ∨ act = Builtin.outRight ∨ Keeps (fun p ↦ (p.left, p.right)) act

namespace Builtin

theorem writes_outLeft : Native.Writes (Rig.left : Rig σ → Sample) outLeft :=
  Native.writes_of_bind fun _ _ ↦ rfl

theorem writes_outRight : Native.Writes (Rig.right : Rig σ → Sample) outRight :=
  Native.writes_of_bind fun _ _ ↦ rfl

theorem orderly_dictionary : (dictionary : Dictionary σ).Uses Native.Orderly := by
  have hkeeps : ∀ act : Native σ, Keeps (fun p ↦ (p.left, p.right)) act → act.Orderly :=
    fun act h ↦ Or.inr (Or.inr h)
  refine uses_dictionary (fun f ↦ hkeeps _ (.unary f)) (fun f ↦ hkeeps _ (.binary f)) ?_
  rw [List.forall_mem_append]
  refine ⟨fun word hword ↦ hkeeps _ (keeps_stackWords word hword), ?_⟩
  simp only [rigWords, List.forall_mem_cons]
  exact ⟨hkeeps _ keeps_playing, Or.inl rfl, Or.inr (Or.inl rfl), by simp⟩

end Builtin

namespace Native.Orderly

variable {act : Native σ}

theorem left (h : Native.Orderly act) : act = Builtin.outLeft ∨ Keeps Rig.left act := by
  rcases h with rfl | rfl | h
  · exact Or.inl rfl
  · exact Or.inr (Builtin.keeps_outRight fun _ _ ↦ rfl)
  · exact Or.inr fun bench ↦ congrArg Prod.fst (h bench)

theorem right (h : Native.Orderly act) : act = Builtin.outRight ∨ Keeps Rig.right act := by
  rcases h with rfl | rfl | h
  · exact Or.inr (Builtin.keeps_outLeft fun _ _ ↦ rfl)
  · exact Or.inl rfl
  · exact Or.inr fun bench ↦ congrArg Prod.snd (h bench)

end Native.Orderly

end StackSynth
