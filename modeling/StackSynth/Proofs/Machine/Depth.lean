import StackSynth.Machine.Builtin
import StackSynth.Proofs.Language.Natives
import StackSynth.Proofs.Machine.Activations

/-!
# Runs seen as depths

How deep the stack is decides whether a native misuses it; the values on the stack, the rig and the
modules do not. Seen as depths, a native is therefore a list of moves that need only the depth and
the ceiling, and `MovesBy` says that an action is such a list. Where natives follow moves, so does
every program that is made of them, however its words are nested (`Program.exists_movesBy`).

An action that follows moves does the same to any two benches of one depth and one ceiling: it goes
through on both and leaves equal depths, or it fails on both with the same error
(`MovesBy.eq_of_eq`).
-/

namespace StackSynth

variable {σ ε α β μ : Type}

/-! ## Moves -/

/-- What a native does to the number of values. -/
inductive DepthMove where
  /-- Goes on only if there are `n` values. -/
  | need (n : Nat)
  /-- Takes `n` values. -/
  | take (n : Nat)
  /-- Adds a value. -/
  | push
  /-- Takes all values. -/
  | clear
  deriving DecidableEq, Repr

/-- The depth after a move, or how the move misuses the stack. -/
def DepthMove.run (limit depth : Nat) : DepthMove → Except StackError Nat
  | .need n => if n ≤ depth then .ok depth else .error .underflow
  | .take n => if n ≤ depth then .ok (depth - n) else .error .underflow
  | .push => if depth < limit then .ok (depth + 1) else .error (.overflow limit)
  | .clear => .ok 0

/-- A move with the name of the step that makes it. -/
abbrev DepthStep := String × DepthMove

/-- The depth after a step, or the fault of the step. -/
def DepthStep.run (limit depth : Nat) (step : DepthStep) : Except Fault Nat :=
  (step.2.run limit depth).mapError (Fault.ofStackError step.1)

/-! ## Actions that follow moves -/

/-- A result with nothing left of its bench but the depth. -/
def outcome (result : Except ε α × Bench σ) : Except ε Nat :=
  result.1.map fun _ ↦ result.2.stack.size

/-- Seen as depths, an action is a list of moves, on every bench. -/
structure MovesBy (run : Nat → Nat → μ → Except ε Nat) (act : ExceptT ε (StateM (Bench σ)) α)
    (moves : List μ) : Prop where
  limit_eq : ∀ bench, (act bench).2.stack.limit = bench.stack.limit
  outcome_eq : ∀ bench,
    outcome (act bench) = moves.foldlM (run bench.stack.limit) bench.stack.size

namespace MovesBy

variable {run : Nat → Nat → μ → Except ε Nat}

theorem pure (a : α) : MovesBy run (Pure.pure a : ExceptT ε (StateM (Bench σ)) α) [] where
  limit_eq _ := rfl
  outcome_eq _ := rfl

theorem bind {act : ExceptT ε (StateM (Bench σ)) α} {next : α → ExceptT ε (StateM (Bench σ)) β}
    {moves moves' : List μ} (h : MovesBy run act moves) (h' : ∀ a, MovesBy run (next a) moves') :
    MovesBy run (act >>= next) (moves ++ moves') := by
  have key : ∀ bench, ((act >>= next) bench).2.stack.limit = bench.stack.limit ∧
      outcome ((act >>= next) bench)
        = (moves ++ moves').foldlM (run bench.stack.limit) bench.stack.size := by
    intro bench
    have hlimit := h.limit_eq bench
    have houtcome := h.outcome_eq bench
    rw [RunM.bind_apply, List.foldlM_append, ← houtcome]
    generalize act bench = result at hlimit ⊢
    rcases result with ⟨e | a, bench'⟩
    · exact ⟨hlimit, rfl⟩
    · refine ⟨((h' a).limit_eq bench').trans hlimit, ?_⟩
      rw [← hlimit]
      exact (h' a).outcome_eq bench'
  exact ⟨fun bench ↦ (key bench).1, fun bench ↦ (key bench).2⟩

/-- A condition that decides between actions with the same moves is none for the depth. -/
theorem ite {act act' : ExceptT ε (StateM (Bench σ)) α} {moves : List μ} (c : Prop) [Decidable c]
    (h : MovesBy run act moves) (h' : MovesBy run act' moves) :
    MovesBy run (if c then act else act') moves := by
  split
  next => exact h
  next => exact h'

/-- Two benches of one depth and one ceiling are all the same to an action that follows moves. -/
theorem eq_of_eq {act : ExceptT ε (StateM (Bench σ)) α} {moves : List μ}
    (h : MovesBy run act moves) {b b' : Bench σ} (hsize : b.stack.size = b'.stack.size)
    (hlimit : b.stack.limit = b'.stack.limit) : outcome (act b) = outcome (act b') := by
  rw [h.outcome_eq, h.outcome_eq, hsize, hlimit]

end MovesBy

/-! ## Natives -/

namespace Native

/-- Seen as depths, a native is a list of moves. -/
abbrev Moves (act : NativeM σ α) (moves : List DepthMove) : Prop :=
  MovesBy DepthMove.run act moves

/-- What leaves the stack alone makes no move. -/
theorem moves_onRig (f : Rig σ → α × Rig σ) : Moves (onRig f) [] where
  limit_eq _ := rfl
  outcome_eq _ := rfl

theorem moves_onModules (f : σ → α × σ) : Moves (onModules f) [] := moves_onRig _

theorem moves_onStack {op : StackM α} {move : DepthMove}
    (h : ∀ s, (op s).2.limit = s.limit ∧
      (op s).1.map (fun _ ↦ (op s).2.size) = move.run s.limit s.size) :
    Moves (onStack op : NativeM σ α) [move] where
  limit_eq bench := (h bench.stack).1
  outcome_eq bench := by
    rw [List.foldlM_cons, ← (h bench.stack).2]
    simp only [List.foldlM_nil, bind_pure]
    rfl

theorem moves_push (x : Float) : Moves (push x : NativeM σ Unit) [.push] := by
  refine moves_onStack fun s ↦ ?_
  by_cases h : s.values.size < s.limit <;>
    simp [StackM.push, DepthMove.run, Stack.size, Except.map, h]

theorem moves_pop : Moves (pop : NativeM σ Float) [.take 1] := by
  refine moves_onStack fun s ↦ ?_
  by_cases h : 0 < s.values.size <;>
    simp [StackM.pop, DepthMove.run, Stack.size, Except.map, h, Nat.succ_le_iff]

theorem moves_pop2 : Moves (pop2 : NativeM σ (Float × Float)) [.take 2] := by
  refine moves_onStack fun s ↦ ?_
  by_cases h : 2 ≤ s.values.size <;>
    simp [StackM.pop2, DepthMove.run, Stack.size, Except.map, h, Nat.sub_sub]

theorem moves_pick (depth : Nat) :
    Moves (onStack (StackM.pick depth) : NativeM σ Float) [.need (depth + 1)] := by
  refine moves_onStack fun s ↦ ?_
  by_cases h : depth < s.values.size <;>
    simp [StackM.pick, DepthMove.run, Stack.size, Except.map, h, Nat.succ_le_iff]

theorem moves_unary (f : Float → Float) : Moves (unary f : NativeM σ Unit) [.take 1, .push] :=
  moves_pop.bind fun _ ↦ moves_push _

theorem moves_binary (f : Float → Float → Float) :
    Moves (binary f : NativeM σ Unit) [.take 2, .push] :=
  moves_pop2.bind fun _ ↦ moves_push _

theorem moves_size : Moves (onStack StackM.size : NativeM σ Nat) [] where
  limit_eq _ := rfl
  outcome_eq _ := rfl

end Native

/-- A native that makes moves only, or a constant. -/
def Operation.OnlyMoves : Operation σ → Prop
  | .native act => ∃ moves, Native.Moves act moves
  | .constant _ => True
  | .word _ _ => False

/-- A native that makes relative moves only, or a constant. A move is relative if it counts the same
at every depth, which only a clear does not. -/
def Operation.OnlyRelativeMoves : Operation σ → Prop
  | .native act => ∃ moves, Native.Moves act moves ∧ .clear ∉ moves
  | .constant _ => True
  | .word _ _ => False

namespace Operation.OnlyRelativeMoves

theorem onlyMoves {op : Operation σ} (h : op.OnlyRelativeMoves) : op.OnlyMoves := by
  cases op with
  | native act =>
    obtain ⟨moves, hmoves, -⟩ := h
    exact ⟨moves, hmoves⟩
  | constant value => trivial
  | word label body => exact h

theorem unary (f : Float → Float) : (native (.unary f) : Operation σ).OnlyRelativeMoves :=
  ⟨_, Native.moves_unary f, by decide⟩

theorem binary (f : Float → Float → Float) :
    (native (.binary f) : Operation σ).OnlyRelativeMoves :=
  ⟨_, Native.moves_binary f, by decide⟩

end Operation.OnlyRelativeMoves

/-! ## Built-in words -/

namespace Builtin

open Native

theorem moves_select : Moves (select : NativeM σ Unit) [.need 3, .take 2, .take 1, .push] :=
  (moves_pick 2).bind fun _ ↦ moves_pop2.bind fun _ ↦ moves_pop.bind fun _ ↦ moves_push _

theorem moves_dup : Moves (dup : NativeM σ Unit) [.need 1, .push] :=
  (moves_pick 0).bind fun _ ↦ moves_push _

theorem moves_drop : Moves (drop : NativeM σ Unit) [.take 1] :=
  moves_pop.bind fun _ ↦ .pure ()

theorem moves_swap : Moves (swap : NativeM σ Unit) [.take 2, .push, .push] :=
  moves_pop2.bind fun _ ↦ (moves_push _).bind fun _ ↦ moves_push _

theorem moves_copySecond : Moves (copySecond : NativeM σ Unit) [.need 2, .push] :=
  (moves_pick 1).bind fun _ ↦ moves_push _

theorem moves_rot :
    Moves (rot : NativeM σ Unit) [.need 3, .take 2, .take 1, .push, .push, .push] :=
  (moves_pick 2).bind fun _ ↦ moves_pop2.bind fun _ ↦ moves_pop.bind fun _ ↦
    (moves_push _).bind fun _ ↦ (moves_push _).bind fun _ ↦ moves_push _

theorem moves_nip : Moves (nip : NativeM σ Unit) [.take 2, .push] :=
  moves_pop2.bind fun _ ↦ moves_push _

theorem moves_tuck : Moves (tuck : NativeM σ Unit) [.take 2, .push, .push, .push] :=
  moves_pop2.bind fun _ ↦ (moves_push _).bind fun _ ↦ (moves_push _).bind fun _ ↦ moves_push _

theorem moves_clear : Moves (clear : NativeM σ Unit) [.clear] :=
  moves_onStack fun _ ↦ ⟨rfl, rfl⟩

theorem moves_depth : Moves (depth : NativeM σ Unit) [.push] :=
  moves_size.bind fun _ ↦ moves_push _

theorem moves_playing : Moves (playing : NativeM σ Unit) [.push] :=
  (moves_onRig _).bind fun _ ↦ moves_push _

theorem moves_outLeft : Moves (outLeft : NativeM σ Unit) [.take 1] :=
  moves_pop.bind fun _ ↦ moves_onRig _

theorem moves_outRight : Moves (outRight : NativeM σ Unit) [.take 1] :=
  moves_pop.bind fun _ ↦ moves_onRig _

theorem entries_relative : ∀ word ∈ (entries : List (String × Operation σ)),
    word.2 = .native clear ∨ word.2.OnlyRelativeMoves := by
  have hwords : ∀ word ∈ (stackWords ++ rigWords : List (String × Native σ)),
      word.2 = clear ∨ ∃ moves, Moves word.2 moves ∧ .clear ∉ moves := by
    simp only [stackWords, rigWords, List.cons_append, List.nil_append, List.forall_mem_cons]
    exact ⟨.inr ⟨_, moves_select, by decide⟩, .inr ⟨_, moves_dup, by decide⟩,
      .inr ⟨_, moves_drop, by decide⟩, .inr ⟨_, moves_swap, by decide⟩,
      .inr ⟨_, moves_copySecond, by decide⟩, .inr ⟨_, moves_rot, by decide⟩,
      .inr ⟨_, moves_nip, by decide⟩, .inr ⟨_, moves_tuck, by decide⟩, .inl trivial,
      .inr ⟨_, moves_depth, by decide⟩, .inr ⟨_, moves_playing, by decide⟩,
      .inr ⟨_, moves_outLeft, by decide⟩, .inr ⟨_, moves_outRight, by decide⟩, nofun⟩
  rw [entries, List.forall_mem_append, List.forall_mem_append, List.forall_mem_append,
    List.forall_mem_map, List.forall_mem_map, List.forall_mem_map]
  refine ⟨⟨⟨fun word _ ↦ .inr (.unary word.2), fun word _ ↦ .inr (.binary word.2)⟩,
    fun word hword ↦ (hwords word hword).imp (congrArg _) id⟩, ?_⟩
  simp [Operation.OnlyRelativeMoves]

end Builtin

/-! ## Programs -/

theorem moves_blame {act : NativeM σ α} {moves : List DepthMove} (h : Native.Moves act moves)
    (word : String) : MovesBy DepthStep.run (blame word act) (moves.map (word, ·)) := by
  have happly : ∀ bench, (blame word act bench).2 = (act bench).2 ∧
      outcome (blame word act bench)
        = (outcome (act bench)).mapError (Fault.ofStackError word) := by
    intro bench
    rw [blame]
    rcases act bench with ⟨_ | _, _⟩ <;> exact ⟨rfl, rfl⟩
  have hmoves : ∀ limit depth, (moves.map (word, ·)).foldlM (DepthStep.run limit) depth
      = (moves.foldlM (DepthMove.run limit) depth).mapError (Fault.ofStackError word) := by
    intro limit depth
    clear h
    induction moves generalizing depth with
    | nil => rfl
    | cons move moves ih =>
      rw [List.map_cons, List.foldlM_cons, List.foldlM_cons, DepthStep.run]
      cases move.run limit depth with
      | error e => rfl
      | ok depth' => exact ih depth'
  refine ⟨fun bench ↦ ?_, fun bench ↦ ?_⟩
  · rw [(happly bench).1, h.limit_eq]
  · rw [(happly bench).2, h.outcome_eq, hmoves]

/-- Where natives are moves of a kind, programs are steps of that kind. -/
theorem Program.exists_movesBy_of {K : Native σ → Prop} {R : DepthMove → Prop} (hpush : R .push)
    (hK : ∀ act, K act → ∃ moves, Native.Moves act moves ∧ ∀ move ∈ moves, R move)
    {p : Program σ} (hp : Program.Uses K p) :
    ∃ steps, MovesBy DepthStep.run (Program.run p) steps ∧ ∀ step ∈ steps, R step.2 := by
  have hcons : ∀ (i : Instruction σ) (is : Program σ),
      (∃ steps, MovesBy DepthStep.run i.run steps ∧ ∀ step ∈ steps, R step.2) →
      (∃ steps, MovesBy DepthStep.run (Program.run is) steps ∧ ∀ step ∈ steps, R step.2) →
      ∃ steps, MovesBy DepthStep.run (Program.run (i :: is)) steps ∧
        ∀ step ∈ steps, R step.2 := by
    rintro i is ⟨steps, hi, hsteps⟩ ⟨steps', his, hsteps'⟩
    rw [Program.run]
    exact ⟨_, hi.bind fun _ ↦ his, List.forall_mem_append.mpr ⟨hsteps, hsteps'⟩⟩
  induction p using Program.induction with
  | nil => exact ⟨[], by rw [Program.run]; exact .pure (), fun _ h ↦ absurd h List.not_mem_nil⟩
  | push value is ih | constant _ value is ih =>
    refine hcons _ is ?_ (ih hp.2)
    rw [Instruction.run]
    exact ⟨_, moves_blame (Native.moves_push value) _, by simpa using hpush⟩
  | native name act is ih =>
    obtain ⟨moves, hmoves, hR⟩ := hK act hp.1
    refine hcons _ is ?_ (ih hp.2)
    rw [Instruction.run]
    exact ⟨_, moves_blame hmoves name, List.forall_mem_map.mpr hR⟩
  | call name label body is ihBody ih =>
    refine hcons _ is ?_ (ih hp.2)
    rw [Instruction.run]
    exact ihBody hp.1

/-- Where natives are moves, programs are steps. -/
theorem Program.exists_movesBy {K : Native σ → Prop}
    (hK : ∀ act, K act → ∃ moves, Native.Moves act moves) {p : Program σ}
    (hp : Program.Uses K p) : ∃ steps, MovesBy DepthStep.run (Program.run p) steps := by
  obtain ⟨steps, hsteps, -⟩ := Program.exists_movesBy_of (R := fun _ ↦ True) trivial
    (fun act hact ↦ (hK act hact).imp fun _ h ↦ ⟨h, fun _ _ ↦ trivial⟩) hp
  exact ⟨steps, hsteps⟩

end StackSynth
