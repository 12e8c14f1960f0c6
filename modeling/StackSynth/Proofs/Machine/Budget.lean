import StackSynth.Proofs.Machine.Depth

/-!
# The budget of a program

Apart from a clear every move counts the same at every depth. What a run needs and does is then said
by three numbers: how many values it has to find (`Budget.need`), how far it rises above where it
starts (`Budget.peak`), and by how much the stack is deeper in the end (`Budget.net`). A run goes
through exactly if its need is met and its peak has room. If only the room is missing it overflows,
and if only the need is not met it underflows (`Budget.Describes`).

## Composition

Behind a run with the budget `a`, a second one finds `a.net` values more than the first one did, so
both together need the larger of `a.need` and `b.need - a.net`, and rise to the larger of `a.peak`
and `a.net + b.peak` (`Budget.andThen`). A run that fits leaves a depth at which the next one can
start, which is why the net effect is bounded by the peak on one side and by the need on the other.

## Runs in a row

Run after run the depth moves by `net`. With a positive net effect it is the ceiling that ends a row
of runs, with a negative one the floor, and with none a row that has begun never ends
(`Budget.Foretells`).
-/

namespace StackSynth

variable {σ : Type}

/-- What a run needs and does, seen as depths. -/
structure Budget where
  /-- How many values a run has to find. -/
  need : Nat
  /-- How far a run rises above the depth that it starts from. -/
  peak : Nat
  /-- By how much a run leaves the stack deeper. -/
  net : Int
  net_le : net ≤ peak
  neg_net_le : -net ≤ need

namespace Budget

/-! ## What a budget says of one run -/

/-- Whether and how runs go through, by the ceiling and the depth that they start from. -/
structure Describes (b : Budget) (run : Nat → Nat → Except Fault Nat) : Prop where
  fits : ∀ {limit depth}, b.need ≤ depth → depth + b.peak ≤ limit →
    ∃ depth', run limit depth = .ok depth' ∧ (depth' : Int) = depth + b.net
  overflows : ∀ {limit depth}, depth ≤ limit → b.need ≤ depth → limit < depth + b.peak →
    ∃ word, run limit depth = .error (.overflow word limit)
  underflows : ∀ {limit depth}, depth < b.need → depth + b.peak ≤ limit →
    ∃ word, run limit depth = .error (.underflow word)
  fails : ∀ {limit depth}, depth ≤ limit → depth < b.need →
    ∃ fault, run limit depth = .error fault

/-- The budget of a run that does nothing. -/
def idle : Budget := ⟨0, 0, 0, by decide, by decide⟩

theorem describes_idle : idle.Describes fun _ depth ↦ .ok depth where
  fits _ _ := ⟨_, rfl, (Int.add_zero _).symm⟩
  overflows h _ h' := absurd h (Nat.not_le.mpr h')
  underflows h _ := absurd h (Nat.not_lt_zero _)
  fails _ h := absurd h (Nat.not_lt_zero _)

/-- The budget of one run and then another. -/
def andThen (a b : Budget) : Budget where
  need := max a.need (b.need - a.net).toNat
  peak := max a.peak (a.net + b.peak).toNat
  net := a.net + b.net
  net_le := by have := b.net_le; omega
  neg_net_le := by have := b.neg_net_le; omega

/-- The need of both runs is met if the need of either is where it starts. -/
theorem need_andThen_le_iff {a b : Budget} {depth : Nat} :
    (a.andThen b).need ≤ depth ↔ a.need ≤ depth ∧ (b.need : Int) ≤ depth + a.net := by
  simp only [Budget.andThen]
  omega

/-- The peak of both runs has room if the peak of either has where it starts. -/
theorem add_peak_andThen_le_iff {a b : Budget} {limit depth : Nat} :
    depth + (a.andThen b).peak ≤ limit ↔
      depth + a.peak ≤ limit ∧ depth + a.net + b.peak ≤ limit := by
  have hnet := a.net_le
  simp only [Budget.andThen]
  omega

/-- A run that fits leaves the rest to the run behind it. -/
theorem Describes.exists_bind_eq {a : Budget} {run run' : Nat → Nat → Except Fault Nat}
    (ha : a.Describes run) {limit depth : Nat} (hlow : a.need ≤ depth)
    (hhigh : depth + a.peak ≤ limit) : ∃ depth',
      (run limit depth >>= run' limit) = run' limit depth' ∧ (depth' : Int) = depth + a.net := by
  obtain ⟨depth', hrun, hdepth⟩ := ha.fits hlow hhigh
  exact ⟨depth', by rw [hrun]; rfl, hdepth⟩

theorem Describes.andThen {a b : Budget} {run run' : Nat → Nat → Except Fault Nat}
    (ha : a.Describes run) (hb : b.Describes run') :
    (a.andThen b).Describes fun limit depth ↦ run limit depth >>= run' limit := by
  have hnet := a.net_le
  refine ⟨?fits, ?overflows, ?underflows, ?fails⟩
  case fits =>
    intro limit depth hlow hhigh
    rw [need_andThen_le_iff] at hlow
    rw [add_peak_andThen_le_iff] at hhigh
    obtain ⟨depth', hrun, hdepth⟩ := ha.exists_bind_eq hlow.1 hhigh.1
    have hlow' : b.need ≤ depth' := by omega
    have hhigh' : depth' + b.peak ≤ limit := by omega
    obtain ⟨depth'', hrun', hdepth'⟩ := hb.fits hlow' hhigh'
    refine ⟨depth'', hrun.trans hrun', ?_⟩
    rw [hdepth', hdepth, Int.add_assoc]
    rfl
  case overflows =>
    intro limit depth hle hlow hhigh
    rw [need_andThen_le_iff] at hlow
    rw [← Nat.not_le, add_peak_andThen_le_iff] at hhigh
    by_cases hroom : depth + a.peak ≤ limit
    · obtain ⟨depth', hrun, hdepth⟩ := ha.exists_bind_eq hlow.1 hroom
      rw [hrun]
      exact hb.overflows (by omega) (by omega) (by omega)
    · obtain ⟨word, hrun⟩ := ha.overflows hle hlow.1 (Nat.not_le.mp hroom)
      exact ⟨word, by rw [hrun]; rfl⟩
  case underflows =>
    intro limit depth hlow hhigh
    rw [← Nat.not_le, need_andThen_le_iff] at hlow
    rw [add_peak_andThen_le_iff] at hhigh
    by_cases hmet : a.need ≤ depth
    · obtain ⟨depth', hrun, hdepth⟩ := ha.exists_bind_eq hmet hhigh.1
      rw [hrun]
      exact hb.underflows (by omega) (by omega)
    · obtain ⟨word, hrun⟩ := ha.underflows (Nat.not_le.mp hmet) hhigh.1
      exact ⟨word, by rw [hrun]; rfl⟩
  case fails =>
    intro limit depth hle hlow
    rw [← Nat.not_le, need_andThen_le_iff] at hlow
    by_cases hmet : a.need ≤ depth
    · by_cases hroom : depth + a.peak ≤ limit
      · obtain ⟨depth', hrun, hdepth⟩ := ha.exists_bind_eq hmet hroom
        rw [hrun]
        exact hb.fails (by omega) (by omega)
      · obtain ⟨word, hrun⟩ := ha.overflows hle hmet (Nat.not_le.mp hroom)
        exact ⟨_, by rw [hrun]; rfl⟩
    · obtain ⟨fault, hrun⟩ := ha.fails hle (Nat.not_le.mp hmet)
      exact ⟨fault, by rw [hrun]; rfl⟩

/-- The budget of a run that needs `n` values, leaves `net` more of them and never rises. -/
theorem describes_floor (n : Nat) (net : Int) (word : String) (hle : net ≤ 0) (hneg : -net ≤ n)
    {run : Nat → Nat → Except Fault Nat}
    (hok : ∀ limit depth, n ≤ depth → run limit depth = .ok (depth + net).toNat)
    (herror : ∀ limit depth, depth < n → run limit depth = .error (.underflow word)) :
    Describes ⟨n, 0, net, hle, hneg⟩ run where
  fits hlow _ := ⟨_, hok _ _ hlow, by dsimp only at hlow ⊢; omega⟩
  overflows hle' _ hhigh := absurd hhigh (Nat.not_lt.mpr hle')
  underflows hlow _ := ⟨word, herror _ _ hlow⟩
  fails _ hlow := ⟨_, herror _ _ hlow⟩

/-- Every move but a clear has a budget, whatever the step is called. -/
theorem exists_describes_step {step : DepthStep} (h : step.2 ≠ .clear) :
    ∃ b : Budget, b.Describes fun limit depth ↦ step.run limit depth := by
  obtain ⟨word, move⟩ := step
  cases move with
  | need n =>
    refine ⟨_, describes_floor n 0 word (by omega) (by omega) ?_ ?_⟩
    · intro limit depth hn
      simp [DepthStep.run, DepthMove.run, if_pos hn, Except.mapError]
    · intro limit depth hn
      simp [DepthStep.run, DepthMove.run, if_neg (Nat.not_le.mpr hn), Except.mapError,
        Fault.ofStackError]
  | take n =>
    refine ⟨_, describes_floor n (-n) word (by omega) (by omega) ?_ ?_⟩
    · intro limit depth hn
      simp [DepthStep.run, DepthMove.run, if_pos hn, Except.mapError]
      omega
    · intro limit depth hn
      simp [DepthStep.run, DepthMove.run, if_neg (Nat.not_le.mpr hn), Except.mapError,
        Fault.ofStackError]
  | push =>
    refine ⟨⟨0, 1, 1, by omega, by omega⟩, ?_, ?_, ?_, ?_⟩
    · intro limit depth _ hhigh
      refine ⟨depth + 1, ?_, by simp⟩
      simp [DepthStep.run, DepthMove.run, if_pos (Nat.lt_of_succ_le hhigh), Except.mapError]
    · intro limit depth _ _ hhigh
      refine ⟨word, ?_⟩
      simp [DepthStep.run, DepthMove.run, if_neg (Nat.not_lt.mpr (Nat.le_of_lt_succ hhigh)),
        Except.mapError, Fault.ofStackError]
    · exact fun h _ ↦ absurd h (Nat.not_lt_zero _)
    · exact fun _ h ↦ absurd h (Nat.not_lt_zero _)
  | clear => exact absurd rfl h

/-- Steps without a clear have a budget. -/
theorem exists_describes {steps : List DepthStep} (h : ∀ step ∈ steps, step.2 ≠ .clear) :
    ∃ b : Budget, b.Describes fun limit depth ↦ steps.foldlM (DepthStep.run limit) depth := by
  induction steps with
  | nil => exact ⟨idle, describes_idle⟩
  | cons step steps ih =>
    rw [List.forall_mem_cons] at h
    obtain ⟨a, ha⟩ := exists_describes_step h.1
    obtain ⟨b, hb⟩ := ih h.2
    exact ⟨a.andThen b, by simpa only [List.foldlM_cons] using ha.andThen hb⟩

/-! ## Programs with a budget -/

/-- The budget describes the runs of a program, on every bench. -/
def Covers (b : Budget) (p : Program σ) : Prop :=
  ∃ steps, MovesBy DepthStep.run (Program.run p) steps ∧
    b.Describes fun limit depth ↦ steps.foldlM (DepthStep.run limit) depth

/-- Where natives are moves other than a clear, programs have budgets. -/
theorem exists_covers {K : Native σ → Prop}
    (hK : ∀ act, K act → ∃ moves, Native.Moves act moves ∧ .clear ∉ moves) {p : Program σ}
    (hp : Program.Uses K p) : ∃ b : Budget, b.Covers p := by
  obtain ⟨steps, hsteps, hrelative⟩ := Program.exists_movesBy_of (R := (· ≠ .clear)) (by simp)
    (fun act hact ↦ (hK act hact).imp fun moves h ↦
      ⟨h.1, fun move hmove heq ↦ h.2 (heq ▸ hmove)⟩) hp
  obtain ⟨b, hb⟩ := exists_describes hrelative
  exact ⟨b, steps, hsteps, hb⟩

/-- The need is met and the peak has room. -/
def Fits (b : Budget) (limit : Nat) (depth : Int) : Prop :=
  b.need ≤ depth ∧ depth + b.peak ≤ limit

/-- A run that fits goes through. One that does not fails, and the fault says which way it went
wrong unless both did. -/
theorem Describes.run_cases {b : Budget} {run : Nat → Nat → Except Fault Nat} (h : b.Describes run)
    {limit depth : Nat} (hle : depth ≤ limit) :
    (b.Fits limit depth ∧
      ∃ depth', run limit depth = .ok depth' ∧ (depth' : Int) = depth + b.net) ∨
    (¬ b.Fits limit depth ∧ ∃ fault, run limit depth = .error fault ∧
      (b.need ≤ depth → ∃ word, fault = .overflow word limit) ∧
      (depth + b.peak ≤ limit → ∃ word, fault = .underflow word)) := by
  have hfits : b.Fits limit depth ↔ b.need ≤ depth ∧ depth + b.peak ≤ limit := by
    rw [Fits]
    omega
  rw [hfits]
  by_cases hlow : b.need ≤ depth
  · by_cases hhigh : depth + b.peak ≤ limit
    · exact Or.inl ⟨⟨hlow, hhigh⟩, h.fits hlow hhigh⟩
    · obtain ⟨word, hrun⟩ := h.overflows hle hlow (Nat.not_le.mp hhigh)
      exact Or.inr ⟨fun hfit ↦ hhigh hfit.2, _, hrun, fun _ ↦ ⟨word, rfl⟩,
        fun hroom ↦ absurd hroom hhigh⟩
  · obtain ⟨fault, hrun⟩ := h.fails hle (Nat.not_le.mp hlow)
    refine Or.inr ⟨fun hfit ↦ hlow hfit.1, fault, hrun, fun hmet ↦ absurd hmet hlow, fun hhigh ↦ ?_⟩
    obtain ⟨word, hrun'⟩ := h.underflows (Nat.not_le.mp hlow) hhigh
    exact ⟨word, Except.error.inj (hrun.symm.trans hrun')⟩

/-- What a run of a program with a budget can do. -/
theorem Covers.run_cases {b : Budget} {p : Program σ} (h : b.Covers p) (bench : Bench σ) :
    (b.Fits bench.stack.limit bench.stack.size ∧
      ∃ bench', Program.run p bench = (.ok (), bench') ∧
        (bench'.stack.size : Int) = bench.stack.size + b.net ∧
        bench'.stack.limit = bench.stack.limit) ∨
    (¬ b.Fits bench.stack.limit bench.stack.size ∧
      ∃ fault bench', Program.run p bench = (.error fault, bench') ∧
        ((b.need : Int) ≤ bench.stack.size → ∃ word, fault = .overflow word bench.stack.limit) ∧
        ((bench.stack.size : Int) + b.peak ≤ bench.stack.limit →
          ∃ word, fault = .underflow word)) := by
  obtain ⟨steps, hsteps, hb⟩ := h
  have houtcome := hsteps.outcome_eq bench
  have hlimit := hsteps.limit_eq bench
  have hle : bench.stack.size ≤ bench.stack.limit := bench.stack.size_le
  have hcases := hb.run_cases hle
  rw [← houtcome] at hcases
  generalize Program.run p bench = result at hcases hlimit
  obtain ⟨fault | _, bench'⟩ := result
  · obtain ⟨-, _, hrun, -⟩ | ⟨hfit, _, hrun, hover, hunder⟩ := hcases
    · cases hrun
    · cases hrun
      exact Or.inr ⟨hfit, fault, bench', rfl, fun hlow ↦ hover (by omega),
        fun hhigh ↦ hunder (by omega)⟩
  · obtain ⟨hfit, _, hrun, hdepth⟩ | ⟨-, _, hrun, -⟩ := hcases
    · cases hrun
      exact Or.inl ⟨hfit, bench', rfl, hdepth, hlimit⟩
    · cases hrun

/-! ## Runs in a row -/

/-- What a budget says of the run behind `i` others, where the first one has started at `depth`
below the ceiling `limit`: whether it completes, and how it faults if it is the first that does not.
-/
structure Foretells (b : Budget) (limit depth i : Nat) (completes : Prop) (faults : Fault → Prop) :
    Prop where
  rising : 0 < b.net → b.need ≤ depth →
    (completes ↔ depth + i * b.net + b.peak ≤ limit) ∧
    ((∀ j < i, depth + j * b.net + b.peak ≤ limit) → limit < depth + i * b.net + b.peak →
      ∃ word, faults (.overflow word limit))
  falling : b.net < 0 → depth + b.peak ≤ limit →
    (completes ↔ b.need ≤ depth + i * b.net) ∧
    ((∀ j < i, b.need ≤ depth + j * b.net) → depth + i * b.net < b.need →
      ∃ word, faults (.underflow word))
  level : b.net = 0 → b.need ≤ depth → depth + b.peak ≤ limit → completes

/-- A run completes if it and all runs before it fit. With a net effect in one direction that is a
condition on the run alone. -/
theorem foretells {b : Budget} {limit depth i : Nat} {completes : Prop} {faults : Fault → Prop}
    (hcompletes : completes ↔ ∀ j ≤ i, b.Fits limit (depth + j * b.net))
    (hover : (∀ j < i, b.Fits limit (depth + j * b.net)) → b.need ≤ depth + i * b.net →
      limit < depth + i * b.net + b.peak → ∃ word, faults (.overflow word limit))
    (hunder : (∀ j < i, b.Fits limit (depth + j * b.net)) → depth + i * b.net + b.peak ≤ limit →
      depth + i * b.net < b.need → ∃ word, faults (.underflow word)) :
    b.Foretells limit depth i completes faults := by
  refine ⟨?rising, ?falling, ?level⟩
  case rising =>
    intro hnet hneed
    have hmet : ∀ j : Nat, b.need ≤ depth + j * b.net := fun j ↦ by
      have hnonneg := Int.mul_nonneg (Int.natCast_nonneg j) (Int.le_of_lt hnet)
      omega
    refine ⟨⟨fun h ↦ (hcompletes.mp h i (Nat.le_refl i)).2, fun h ↦ hcompletes.mpr ?_⟩, ?_⟩
    · intro j hj
      have hmono := Int.mul_le_mul_of_nonneg_right (Int.ofNat_le.mpr hj) (Int.le_of_lt hnet)
      exact ⟨hmet j, by omega⟩
    · exact fun hbefore hexcess ↦ hover (fun j hj ↦ ⟨hmet j, hbefore j hj⟩) (hmet i) hexcess
  case falling =>
    intro hnet hpeak
    have hroom : ∀ j : Nat, depth + j * b.net + b.peak ≤ limit := fun j ↦ by
      have hnonpos := Int.mul_nonpos_of_nonneg_of_nonpos (Int.natCast_nonneg j) (Int.le_of_lt hnet)
      omega
    refine ⟨⟨fun h ↦ (hcompletes.mp h i (Nat.le_refl i)).1, fun h ↦ hcompletes.mpr ?_⟩, ?_⟩
    · intro j hj
      have hmono := Int.mul_le_mul_of_nonpos_right (Int.ofNat_le.mpr hj) (Int.le_of_lt hnet)
      exact ⟨by omega, hroom j⟩
    · exact fun hbefore hlack ↦ hunder (fun j hj ↦ ⟨hbefore j hj, hroom j⟩) (hroom i) hlack
  case level =>
    intro hnet hneed hpeak
    refine hcompletes.mpr fun j _ ↦ ?_
    rw [hnet, Int.mul_zero, Int.add_zero]
    exact ⟨by omega, by omega⟩

end Budget

/-- Run `i` of a program starts from a bench if the runs before it have gone through, each on the
stack that the one before it has left. The rig may be any. -/
inductive Program.Follows (p : Program σ) (bench : Bench σ) : Nat → Bench σ → Prop where
  | first : Follows p bench 0 bench
  | next {i : Nat} {b b' : Bench σ} (rig : Rig σ) (h : Follows p bench i b)
      (hrun : Program.run p b = (.ok (), b')) : Follows p bench (i + 1) ⟨b'.stack, rig⟩

namespace Budget

variable {b : Budget} {p : Program σ} {bench : Bench σ}

/-- Where a run starts that follows others. -/
theorem Covers.of_follows (h : b.Covers p) {i : Nat} {bench' : Bench σ}
    (hf : p.Follows bench i bench') :
    (∀ j < i, b.Fits bench.stack.limit (bench.stack.size + j * b.net)) ∧
      (bench'.stack.size : Int) = bench.stack.size + i * b.net ∧
      bench'.stack.limit = bench.stack.limit := by
  induction hf with
  | first => exact ⟨fun j hj ↦ absurd hj (Nat.not_lt_zero j), by simp, rfl⟩
  | @next i b₁ b₂ rig _ hrun ih =>
    obtain ⟨hbefore, hsize, hlimit⟩ := ih
    rcases h.run_cases b₁ with ⟨hfits, b₂', hrun', hnet, hlimit'⟩ | ⟨-, fault, b₂', hrun', -⟩
    · cases hrun.symm.trans hrun'
      rw [hsize, hlimit] at hfits
      refine ⟨fun j hj ↦ ?_, ?_, hlimit'.trans hlimit⟩
      · rcases Nat.lt_succ_iff_lt_or_eq.mp hj with hlt | rfl
        · exact hbefore j hlt
        · exact hfits
      · push_cast
        rw [hnet, hsize, Int.add_mul, Int.one_mul, Int.add_assoc]
    · cases hrun.symm.trans hrun'

/-- The budget foretells runs in a row. -/
theorem Covers.foretells_follows (h : b.Covers p) {i : Nat} {bench' : Bench σ}
    (hf : p.Follows bench i bench') :
    b.Foretells bench.stack.limit bench.stack.size i
      ((Program.run p bench').1 = .ok ()) (fun fault ↦ (Program.run p bench').1 = .error fault) := by
  obtain ⟨hbefore, hsize, hlimit⟩ := h.of_follows hf
  have hcases := h.run_cases bench'
  rw [hsize, hlimit] at hcases
  have hall : (∀ j ≤ i, b.Fits bench.stack.limit (bench.stack.size + j * b.net)) ↔
      b.Fits bench.stack.limit (bench.stack.size + i * b.net) :=
    ⟨fun hall ↦ hall i (Nat.le_refl i), fun hfits j hj ↦ by
      rcases Nat.lt_or_eq_of_le hj with hlt | rfl
      · exact hbefore j hlt
      · exact hfits⟩
  refine foretells ?_ ?_ ?_
  · rw [hall]
    rcases hcases with ⟨hfits, b', hrun, -⟩ | ⟨hfits, fault, b', hrun, -⟩ <;> simp [hrun, hfits]
  · intro _ hlow hhigh
    rcases hcases with ⟨hfits, -⟩ | ⟨-, fault, b', hrun, hover, -⟩
    · exact absurd hfits.2 (Int.not_le.mpr hhigh)
    · obtain ⟨word, rfl⟩ := hover hlow
      exact ⟨word, by rw [hrun]⟩
  · intro _ hhigh hlow
    rcases hcases with ⟨hfits, -⟩ | ⟨-, fault, b', hrun, -, hunder⟩
    · exact absurd hfits.1 (Int.not_le.mpr hlow)
    · obtain ⟨word, rfl⟩ := hunder hhigh
      exact ⟨word, by rw [hrun]⟩

end Budget

end StackSynth
