import StackSynth.Machine.Builtin
import StackSynth.Proofs.Language.Expansion
import StackSynth.Proofs.Language.Natives

/-!
# What a run leaves alone

A native that works on the stack, or on a module of its own, leaves the rest of the rig as it was.
What is left alone is given by a view of the rig, and an action keeps the view if the rig looks the
same after it, whether it fails or not (`Keeps`). Sequences and choices of actions that keep a view
keep it, and so does a program all of whose natives do; then every step of a run finds the view as
the run found it (`Program.visits_of_keeps`).
-/

namespace StackSynth

variable {σ τ ε α β : Type}

/-- After an action, the rig looks as before. -/
def Keeps (view : Rig σ → τ) (act : ExceptT ε (StateM (Bench σ)) α) : Prop :=
  ∀ bench, view (act bench).2.rig = view bench.rig

namespace Keeps

variable {view : Rig σ → τ}

theorem pure (a : α) : Keeps view (Pure.pure a : ExceptT ε (StateM (Bench σ)) α) := fun _ ↦ rfl

theorem bind {act : ExceptT ε (StateM (Bench σ)) α} {next : α → ExceptT ε (StateM (Bench σ)) β}
    (h : Keeps view act) (h' : ∀ a, Keeps view (next a)) : Keeps view (act >>= next) := by
  intro bench
  have hact := h bench
  rw [RunM.bind_apply]
  generalize act bench = result at hact
  obtain ⟨e | a, bench'⟩ := result
  · exact hact
  · exact (h' a bench').trans hact

theorem ite {act act' : ExceptT ε (StateM (Bench σ)) α} (c : Prop) [Decidable c]
    (h : Keeps view act) (h' : Keeps view act') : Keeps view (if c then act else act') := by
  split
  next => exact h
  next => exact h'

theorem onStack (op : StackM α) : Keeps view (Native.onStack op) := fun _ ↦ rfl

theorem onRig {f : Rig σ → α × Rig σ} (h : ∀ p, view (f p).2 = view p) :
    Keeps view (Native.onRig f) := fun bench ↦ h bench.rig

theorem push (x : Float) : Keeps view (Native.push x) := onStack _

theorem pop : Keeps view Native.pop := onStack _

theorem pop2 : Keeps view Native.pop2 := onStack _

theorem unary (f : Float → Float) : Keeps view (Native.unary f) := pop.bind fun _ ↦ push _

theorem binary (f : Float → Float → Float) : Keeps view (Native.binary f) :=
  pop2.bind fun _ ↦ push _

theorem blame {act : NativeM σ α} (h : Keeps view act) (word : String) :
    Keeps view (StackSynth.blame word act) := by
  intro bench
  have hact := h bench
  rw [StackSynth.blame]
  generalize act bench = result at hact
  obtain ⟨e | a, bench'⟩ := result <;> exact hact

end Keeps

/-! ## Built-in words -/

namespace Builtin

open Native

variable {view : Rig σ → τ}

theorem keeps_stackWords : ∀ word ∈ (stackWords : List (String × Native σ)), Keeps view word.2 := by
  have hpush : ∀ x : Float, Keeps view (push x : NativeM σ Unit) := Keeps.push
  have hpush2 : ∀ x y : Float, Keeps view (do push x; push y : NativeM σ Unit) := fun x y ↦
    (hpush x).bind fun _ ↦ hpush y
  have hpush3 : ∀ x y z : Float, Keeps view (do push x; push y; push z : NativeM σ Unit) :=
    fun x y z ↦ (hpush x).bind fun _ ↦ hpush2 y z
  have hpick : ∀ depth, Keeps view (onStack (StackM.pick depth) : NativeM σ Float) := fun _ ↦
    .onStack _
  simp only [stackWords, List.forall_mem_cons]
  refine ⟨?select, ?dup, ?drop, ?swap, ?second, ?rot, ?nip, ?tuck, ?clear, ?depth, by simp⟩
  case select => exact (hpick 2).bind fun _ ↦ .bind .pop2 fun _ ↦ .bind .pop fun _ ↦ hpush _
  case dup => exact (hpick 0).bind fun _ ↦ hpush _
  case drop => exact .bind .pop fun _ ↦ .pure ()
  case swap => exact .bind .pop2 fun _ ↦ hpush2 _ _
  case second => exact (hpick 1).bind fun _ ↦ hpush _
  case rot => exact (hpick 2).bind fun _ ↦ .bind .pop2 fun _ ↦ .bind .pop fun _ ↦ hpush3 _ _ _
  case nip => exact .bind .pop2 fun _ ↦ hpush _
  case tuck => exact .bind .pop2 fun _ ↦ hpush3 _ _ _
  case clear => exact .onStack _
  case depth => exact .bind (.onStack _) fun _ ↦ hpush _

theorem keeps_playing : Keeps view (playing : Native σ) :=
  .bind (.onRig fun _ ↦ rfl) fun _ ↦ .push _

theorem keeps_outLeft (h : ∀ p x, view { p with left := x } = view p) :
    Keeps view (outLeft : Native σ) :=
  .bind .pop fun _ ↦ .onRig fun p ↦ h p _

theorem keeps_outRight (h : ∀ p x, view { p with right := x } = view p) :
    Keeps view (outRight : Native σ) :=
  .bind .pop fun _ ↦ .onRig fun p ↦ h p _

/-- What holds of the natives of the built-in words holds of all that programs over them get to. -/
theorem uses_dictionary {K : Native σ → Prop} (hunary : ∀ f, K (unary f))
    (hbinary : ∀ f, K (binary f)) (hwords : ∀ word ∈ stackWords ++ rigWords, K word.2) :
    (dictionary : Dictionary σ).Uses K := by
  refine Dictionary.Uses.defineAll Dictionary.Uses.empty ?_
  rw [entries, List.forall_mem_append, List.forall_mem_append, List.forall_mem_append,
    List.forall_mem_map, List.forall_mem_map, List.forall_mem_map]
  refine ⟨⟨⟨fun word _ _ ↦ hunary word.2, fun word _ _ ↦ hbinary word.2⟩,
    fun word hword _ ↦ hwords word hword⟩, ?_⟩
  simp only [List.forall_mem_cons]
  exact ⟨fun _ ↦ trivial, fun _ ↦ trivial, by simp⟩

end Builtin

/-! ## Programs -/

theorem Program.Uses.of_mem_expand {K : Native σ → Prop} {p : Program σ} (hp : Program.Uses K p)
    {name : String} {act : Native σ} (h : Primitive.native name act ∈ Program.expand p) :
    K act := by
  induction p using Program.induction with
  | nil => exact absurd h List.not_mem_nil
  | push _ is ih | constant _ _ is ih =>
    rw [Program.expand, Instruction.expand, List.singleton_append, List.mem_cons] at h
    exact ih hp.2 (h.resolve_left (by simp))
  | native _ _ is ih =>
    rw [Program.expand, Instruction.expand, List.singleton_append, List.mem_cons] at h
    rcases h with h | h
    · cases h
      exact hp.1
    · exact ih hp.2 h
  | call _ _ body is ihBody ih =>
    rw [Program.expand, Instruction.expand, List.mem_append] at h
    exact h.elim (ihBody hp.1) (ih hp.2)

theorem Program.uses_of_expand {K : Native σ → Prop} {p : Program σ}
    (h : ∀ name act, Primitive.native name act ∈ Program.expand p → K act) : Program.Uses K p := by
  induction p using Program.induction with
  | nil => exact trivial
  | push _ is ih | constant _ _ is ih =>
    exact ⟨trivial, ih fun name act hmem ↦ h name act (List.mem_append_right _ hmem)⟩
  | native name act is ih =>
    exact ⟨h name act (List.mem_append_left _ (List.mem_singleton_self _)),
      ih fun name act hmem ↦ h name act (List.mem_append_right _ hmem)⟩
  | call _ _ body is ihBody ih =>
    exact ⟨ihBody fun name act hmem ↦ h name act (List.mem_append_left _ hmem),
      ih fun name act hmem ↦ h name act (List.mem_append_right _ hmem)⟩

namespace Primitive

variable {view : Rig σ → τ}

theorem keeps_run {s : Primitive σ} (h : ∀ name act, s = .native name act → Keeps view act) :
    Keeps view s.run := by
  cases s with
  | push name value => exact (Keeps.push value).blame name
  | native name act => exact (h name act rfl).blame name

theorem visits_of_keeps {steps : List (Primitive σ)}
    (h : ∀ name act, .native name act ∈ steps → Keeps view act) (bench : Bench σ) :
    ∀ visit ∈ visits steps bench, view visit.2.rig = view bench.rig := by
  induction steps generalizing bench with
  | nil => simp [visits]
  | cons s rest ih =>
    have hs : Keeps view s.run := keeps_run fun name act heq ↦ h name act (heq ▸ List.mem_cons_self)
    have hfirst := hs bench
    rw [visits, List.forall_mem_cons]
    refine ⟨rfl, ?_⟩
    generalize s.run bench = result at hfirst
    obtain ⟨e | _, bench'⟩ := result
    · simp
    · intro visit hvisit
      have hrest := ih (fun name act hmem ↦ h name act (List.mem_cons_of_mem _ hmem)) bench'
      exact (hrest visit hvisit).trans hfirst

end Primitive

theorem Program.visits_of_keeps {view : Rig σ → τ} {p : Program σ}
    (hp : Program.Uses (Keeps view) p) (bench : Bench σ) :
    ∀ visit ∈ Program.visits p bench, view visit.2.rig = view bench.rig := by
  rw [Program.visits_eq_visits]
  exact Primitive.visits_of_keeps (fun _ _ h ↦ hp.of_mem_expand h) bench

theorem Program.keeps_run {view : Rig σ → τ} {p : Program σ}
    (hp : Program.Uses (Keeps view) p) : Keeps view (Program.run p) := by
  rw [Program.run_eq_runAll]
  have hsteps : ∀ name act, .native name act ∈ Program.expand p → Keeps view act :=
    fun _ _ h ↦ hp.of_mem_expand h
  generalize Program.expand p = steps at hsteps
  induction steps with
  | nil => exact .pure ()
  | cons s rest ih =>
    rw [Primitive.runAll]
    refine Keeps.bind (Primitive.keeps_run ?_) fun _ ↦ ih ?_
    · exact fun name act heq ↦ hsteps name act (heq ▸ List.mem_cons_self)
    · exact fun name act hmem ↦ hsteps name act (List.mem_cons_of_mem _ hmem)

end StackSynth
