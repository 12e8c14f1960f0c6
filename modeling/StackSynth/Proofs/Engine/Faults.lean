import StackSynth.Proofs.Engine.Silence

/-!
# The delivery of faults

A block that faults answers with its fault and queues it for whoever reads the faults. The audio
side never waits for a reader: the queue holds so many faults and no more, and a fault that finds it
full is dropped.

Builds, blocks and readings come in any order, so which faults are dropped depends on the whole
history of readings. Every raised fault is therefore written down together with those that waited
unread at that time (`Engine.raisedAmid`), and this is all that matters: a fault is kept if there
was room beside them (`Engine.kept`), and what has been received, followed by what still waits, is
what was kept (`Engine.received_append_waiting`).

Nothing else looks at the queue. Engines that differ in their queues alone answer everything but
readings alike, however much is read from either (`Engine.Twin`).
-/

namespace StackSynth

variable {σ : Type}

/-! ## One end of a queue and the other -/

namespace BoundedQueue

variable {α : Type} (q : BoundedQueue α)

theorem receive_append_waiting :
    q.receive.1.toList ++ q.receive.2.waiting.toList = q.waiting.toList := by
  obtain ⟨capacity, ⟨items⟩, hle⟩ := q
  cases items with
  | nil => rfl
  | cons first rest => simp [receive]

theorem capacity_send (a : α) : (q.send a).2.capacity = q.capacity := by
  rw [send]
  split <;> rfl

theorem waiting_send (a : α) : (q.send a).2.waiting.toList =
    q.waiting.toList ++ if q.waiting.toList.length < q.capacity then [a] else [] := by
  rw [send, Array.length_toList]
  split
  next => rw [Array.toList_push]
  next => rw [List.append_nil]

end BoundedQueue

namespace Engine

/-! ## Calls -/

/-- What those who share an engine call for. -/
inductive Call (σ : Type) where
  /-- Something is asked of the engine. -/
  | ask (r : Request σ)
  /-- The oldest fault that waits is received. -/
  | receive

/-- The faults that an answer hands over. -/
def Reply.received : Reply → List Fault
  | .faults waiting => waiting.toList
  | .done | .built _ | .playing _ | .block _ _ => []

/-- Does what is called for. -/
def call (e : Engine σ) : Call σ → Reply × Engine σ
  | .ask r => e.perform r
  | .receive => (.faults e.receiveFault.1.toArray, e.receiveFault.2)

/-- The engine after some calls. -/
def afterCalls (e : Engine σ) (calls : List (Call σ)) : Engine σ :=
  calls.foldl (fun e c ↦ (e.call c).2) e

/-- What is gathered from calls, one after the other. -/
def gather {α : Type} (f : Engine σ → Call σ → List α) (e : Engine σ) : List (Call σ) → List α
  | [] => []
  | c :: calls => f e c ++ (e.call c).2.gather f calls

/-- The faults that a call hands over. -/
def received (e : Engine σ) (c : Call σ) : List Fault := (e.call c).1.received

/-- The fault that a block answers with. -/
def raised (e : Engine σ) (c : Call σ) : List Fault := (e.call c).1.fault?.toList

/-- The fault that a block answers with, and the faults that waited unread at that time. -/
def raisedAmid (e : Engine σ) (c : Call σ) : List (Fault × List Fault) :=
  (e.raised c).map fun fault ↦ (fault, e.faults.waiting.toList)

/-- The faults beside which there was room for one more. -/
def kept (capacity : Nat) (raisings : List (Fault × List Fault)) : List Fault :=
  (raisings.filter fun raising ↦ raising.2.length < capacity).map Prod.fst

theorem kept_append (capacity : Nat) (before after : List (Fault × List Fault)) :
    kept capacity (before ++ after) = kept capacity before ++ kept capacity after := by
  rw [kept, List.filter_append, List.map_append, kept, kept]

theorem kept_sublist (capacity : Nat) (raisings : List (Fault × List Fault)) :
    (kept capacity raisings).Sublist (raisings.map Prod.fst) :=
  List.filter_sublist.map _

theorem map_gather {α β : Type} (g : α → β) (f : Engine σ → Call σ → List α) (e : Engine σ)
    (calls : List (Call σ)) :
    (e.gather f calls).map g = e.gather (fun e c ↦ (f e c).map g) calls := by
  induction calls generalizing e with
  | nil => rfl
  | cons c calls ih => rw [gather, List.map_append, ih, gather]

/-- The faults that blocks answer with, without what waited beside them. -/
theorem map_fst_raisedAmid (e : Engine σ) (calls : List (Call σ)) :
    (e.gather raisedAmid calls).map Prod.fst = e.gather raised calls := by
  rw [map_gather]
  congr
  funext e c
  rw [raisedAmid, List.map_map, Function.comp_def]
  exact List.map_id' _

/-! ## What becomes of the queue -/

/-- A request reads all faults, or hands over none and queues the fault that it answers with. -/
theorem perform_faults (e : Engine σ) (r : Request σ) :
    r = .drainFaults ∨ (e.perform r).1.received = [] ∧ (e.perform r).2.faults =
      (e.perform r).1.fault?.elim e.faults fun fault ↦ (e.faults.send fault).2 := by
  by_cases hr : r.IsBuild
  · rcases e.perform_of_isBuild hr with ⟨error, heq⟩ | ⟨tokens, c, -, heq⟩ <;>
      exact Or.inr (by rw [heq]; exact ⟨rfl, rfl⟩)
  · cases r with
    | build | buildBytes => exact absurd trivial hr
    | drainFaults => exact Or.inl rfl
    | processBlock left right =>
      refine Or.inr ⟨rfl, ?_⟩
      change (e.processBlock left right).2.2.faults = (e.processBlock left right).2.1.elim _ _
      rw [processBlock]
      rcases e.scheduler.render left right with ⟨buffers, _ | fault, scheduler⟩ <;> rfl
    | _ => exact Or.inr ⟨rfl, rfl⟩

/-- What a call hands over, followed by what waits behind it, is what waited before it and the fault
that it raises if there is room. -/
theorem received_append_waiting_call (e : Engine σ) (c : Call σ) :
    (e.call c).2.faults.capacity = e.faults.capacity ∧
      e.received c ++ (e.call c).2.faults.waiting.toList
        = e.faults.waiting.toList ++ kept e.faults.capacity (e.raisedAmid c) := by
  cases c with
  | receive =>
    refine ⟨rfl, ?_⟩
    have hreceive := e.faults.receive_append_waiting
    rw [received, call, Reply.received, Option.toList_toArray, receiveFault]
    exact hreceive.trans (List.append_nil _).symm
  | ask r =>
    rcases e.perform_faults r with rfl | ⟨hnone, hfaults⟩
    · exact ⟨rfl, rfl⟩
    · rw [received, raisedAmid, raised, call, hnone, hfaults, List.nil_append]
      cases (e.perform r).1.fault? with
      | none => exact ⟨rfl, (List.append_nil _).symm⟩
      | some fault =>
        refine ⟨e.faults.capacity_send fault, (e.faults.waiting_send fault).trans ?_⟩
        rw [Option.toList_some, List.map_singleton, kept, List.filter_cons]
        simp only [decide_eq_true_eq]
        split <;> rfl

/-- What was received, followed by what waits, is what waited at the start and what was kept. -/
theorem received_append_waiting (e : Engine σ) (calls : List (Call σ)) :
    (e.afterCalls calls).faults.capacity = e.faults.capacity ∧
      e.gather received calls ++ (e.afterCalls calls).faults.waiting.toList
        = e.faults.waiting.toList ++ kept e.faults.capacity (e.gather raisedAmid calls) := by
  induction calls generalizing e with
  | nil => exact ⟨rfl, by simp [gather, kept, afterCalls]⟩
  | cons c calls ih =>
    obtain ⟨hcapacity, hfirst⟩ := e.received_append_waiting_call c
    obtain ⟨hlast, hrest⟩ := ih (e.call c).2
    rw [hcapacity] at hlast hrest
    refine ⟨hlast, ?_⟩
    calc e.gather received (c :: calls) ++ (e.afterCalls (c :: calls)).faults.waiting.toList
        = e.received c ++ ((e.call c).2.gather received calls
            ++ ((e.call c).2.afterCalls calls).faults.waiting.toList) := List.append_assoc ..
      _ = e.received c ++ (e.call c).2.faults.waiting.toList
            ++ kept e.faults.capacity ((e.call c).2.gather raisedAmid calls) := by
          rw [hrest, List.append_assoc]
      _ = e.faults.waiting.toList
            ++ kept e.faults.capacity (e.gather raisedAmid (c :: calls)) := by
          rw [hfirst, gather, kept_append, List.append_assoc]

/-- The faults that wait unread when a fault is raised were kept before it. They are the last ones
that were, and there is room for them. -/
theorem suffix_of_raisedAmid (e : Engine σ) {calls : List (Call σ)}
    {before after : List (Fault × List Fault)} {fault : Fault} {waiting : List Fault}
    (h : e.gather raisedAmid calls = before ++ (fault, waiting) :: after) :
    waiting <:+ e.faults.waiting.toList ++ kept e.faults.capacity before ∧
      waiting.length ≤ e.faults.capacity := by
  induction calls generalizing e before with
  | nil => exact absurd h (by simp [gather])
  | cons c calls ih =>
    obtain ⟨hcapacity, hfirst⟩ := e.received_append_waiting_call c
    have hlater : ∀ {rest}, (e.call c).2.gather raisedAmid calls
        = rest ++ (fault, waiting) :: after →
        waiting <:+ e.faults.waiting.toList
            ++ (kept e.faults.capacity (e.raisedAmid c) ++ kept e.faults.capacity rest) ∧
          waiting.length ≤ e.faults.capacity := by
      intro rest hrest
      obtain ⟨hsuffix, hlength⟩ := ih (e.call c).2 hrest
      rw [hcapacity] at hsuffix hlength
      rw [← List.append_assoc, ← hfirst, List.append_assoc]
      exact ⟨hsuffix.trans (List.suffix_append _ _), hlength⟩
    rw [gather] at h
    -- a block raises one fault at most
    cases hraised : (e.call c).1.fault? with
    | none =>
      have hnone : e.raisedAmid c = [] := by rw [raisedAmid, raised, hraised]; rfl
      rw [hnone] at h hlater
      exact hlater h
    | some first =>
      have hsome : e.raisedAmid c = [(first, e.faults.waiting.toList)] := by
        rw [raisedAmid, raised, hraised]
        rfl
      rw [hsome] at h hlater
      cases before with
      | nil =>
        cases h
        exact ⟨⟨[], (List.append_nil _).symm⟩, e.faults.size_le⟩
      | cons raising before =>
        obtain ⟨rfl, hrest⟩ := List.cons.inj h
        rw [← List.singleton_append, kept_append]
        exact hlater hrest

/-! ## The audio side -/

/-- What a call asks for, unless it only reads faults. -/
def Call.asked? : Call σ → Option (Request σ)
  | .receive | .ask .drainFaults => none
  | .ask r => some r

/-- What is answered to a call that does not only read faults. -/
def answered (e : Engine σ) (c : Call σ) : List Reply :=
  c.asked?.toList.map fun r ↦ (e.perform r).1

/-- Engines that differ in nothing but the faults that wait. -/
structure Twin (e e' : Engine σ) : Prop where
  dictionary : e'.dictionary = e.dictionary
  scheduler : e'.scheduler = e.scheduler
  sampleRate : e'.sampleRate = e.sampleRate

namespace Twin

variable {e e' : Engine σ}

theorem build (h : e.Twin e') (source : String) :
    (e.built (e.build source)).2.Twin (e'.built (e'.build source)).2 ∧
      (e'.built (e'.build source)).1 = (e.built (e.build source)).1 := by
  rw [Engine.build, Engine.build, h.dictionary]
  cases compile e.dictionary source with
  | error error => exact ⟨h, rfl⟩
  | ok c =>
    have hscheduler := congrArg (fun s ↦ (s.exchange c.program).2) h.scheduler
    exact ⟨⟨rfl, hscheduler, h.sampleRate⟩, rfl⟩

/-- Only readings tell twins apart. -/
theorem perform (h : e.Twin e') (r : Request σ) :
    (e.perform r).2.Twin (e'.perform r).2 ∧
      ∀ c : Call σ, c.asked? = some r → (e'.perform r).1 = (e.perform r).1 := by
  suffices hsame : (e.perform r).2.Twin (e'.perform r).2 ∧
      (r = .drainFaults ∨ (e'.perform r).1 = (e.perform r).1) by
    refine ⟨hsame.1, fun c hc ↦ hsame.2.resolve_left ?_⟩
    rintro rfl
    rcases c with (_ | _) | _ <;> cases hc
  cases r with
  | build source => exact ⟨(h.build source).1, Or.inr (h.build source).2⟩
  | buildBytes source =>
    rw [Engine.perform, Engine.perform, buildBytes, buildBytes]
    cases Utf8.decode source with
    | error error => exact ⟨h, Or.inr rfl⟩
    | ok text => exact ⟨(h.build text).1, Or.inr (h.build text).2⟩
  | drainFaults => exact ⟨⟨h.dictionary, h.scheduler, h.sampleRate⟩, Or.inl rfl⟩
  | _ =>
    obtain ⟨dictionary, scheduler, sampleRate, faults⟩ := e
    obtain ⟨dictionary', scheduler', sampleRate', faults'⟩ := e'
    obtain ⟨rfl, rfl, rfl⟩ := h
    exact ⟨⟨rfl, rfl, rfl⟩, Or.inr rfl⟩

/-- A call that only reads leaves twins of the same engines behind. -/
theorem of_asked?_eq_none (h : e.Twin e') {c : Call σ} (hc : c.asked? = none) :
    (e.call c).2.Twin e' := by
  cases c with
  | receive => exact ⟨h.dictionary, h.scheduler, h.sampleRate⟩
  | ask r =>
    cases r with
    | drainFaults => exact ⟨h.dictionary, h.scheduler, h.sampleRate⟩
    | _ => cases hc

/-- What is answered besides readings is what a twin answers that no one reads from. -/
theorem gather_answered (h : e.Twin e') (calls : List (Call σ)) :
    e.gather answered calls = e'.replies (calls.filterMap Call.asked?) := by
  induction calls generalizing e e' with
  | nil => rfl
  | cons c calls ih =>
    cases hc : c.asked? with
    | none =>
      rw [gather, answered, hc, List.filterMap_cons_none hc, ← ih (h.of_asked?_eq_none hc)]
      rfl
    | some r =>
      have hcall : e.call c = e.perform r := by
        rcases c with (_ | _) | _ <;> cases hc <;> rfl
      obtain ⟨htwin, hreply⟩ := h.perform r
      rw [gather, answered, hc, hcall, List.filterMap_cons_some hc, replies_cons, hreply c hc,
        ← ih htwin]
      rfl

end Twin

/-! ## Whole histories -/

/-- How the faults of some calls are delivered through a queue with room for `capacity` of them. -/
structure DeliversFaults (e : Engine σ) (capacity : Nat) (calls : List (Call σ)) : Prop where
  /-- Faults are received in the order in which blocks answer with them, each of them once at
  most. -/
  inOrder : (e.gather received calls).Sublist (e.gather raised calls)
  /-- What was received, followed by what still waits, are the faults that were raised when fewer
  than `capacity` waited unread. -/
  exact : e.gather received calls ++ (e.afterCalls calls).faults.waiting.toList
    = kept capacity (e.gather raisedAmid calls)
  /-- A fault is received in its turn or waits for it, unless `capacity` others waited unread when
  it was raised. Those were raised before. -/
  fate : ∀ before fault waiting after,
    e.gather raisedAmid calls = before ++ (fault, waiting) :: after →
      waiting <:+ kept capacity before ∧ (waiting.length = capacity ∨
        (e.gather received calls ++ (e.afterCalls calls).faults.waiting.toList)[
          (kept capacity before).length]? = some fault)
  /-- No more than `capacity` faults wait. -/
  bounded : (e.afterCalls calls).faults.size ≤ capacity

theorem deliversFaults (e : Engine σ) (hempty : e.faults.waiting = #[]) (calls : List (Call σ)) :
    e.DeliversFaults e.faults.capacity calls := by
  obtain ⟨hcapacity, hexact⟩ := e.received_append_waiting calls
  rw [hempty, Array.toList_empty, List.nil_append] at hexact
  refine ⟨?_, hexact, fun before fault waiting after h ↦ ?_, ?_⟩
  · have hkept : (e.gather received calls).Sublist
        (kept e.faults.capacity (e.gather raisedAmid calls)) := by
      rw [← hexact]
      exact List.sublist_append_left _ _
    rw [← map_fst_raisedAmid]
    exact hkept.trans (kept_sublist _ _)
  · obtain ⟨hsuffix, hlength⟩ := e.suffix_of_raisedAmid h
    rw [hempty, Array.toList_empty, List.nil_append] at hsuffix
    refine ⟨hsuffix, ?_⟩
    rcases Nat.eq_or_lt_of_le hlength with heq | hlt
    · exact Or.inl heq
    · right
      rw [hexact, h, kept_append, List.getElem?_append_right (Nat.le_refl _), Nat.sub_self, kept,
        List.filter_cons_of_pos (by simpa using hlt)]
      rfl
  · exact hcapacity ▸ (e.afterCalls calls).faults.size_le

/-- **The delivery of faults.** Whatever is asked of a new engine and whenever its faults are read,
they are received in order and each once, and none is missing but those that found the queue full.
And whatever waits in a queue, however large it is and however much is read from it, all other
calls are answered alike: the audio side hears nothing of the readers. -/
theorem faults_delivered (spec : EngineSpec) (modules : σ) (calls : List (Call σ)) :
    (new spec modules).DeliversFaults (max spec.faultQueue 1) calls ∧
      ∀ (e e' : Engine σ) (calls' : List (Call σ)), e.Twin e' →
        calls'.filterMap Call.asked? = calls.filterMap Call.asked? →
          e'.gather answered calls' = e.gather answered calls := by
  refine ⟨(new spec modules).deliversFaults rfl calls, fun e e' calls' htwin hasked ↦ ?_⟩
  have hsame : e'.Twin e' := ⟨rfl, rfl, rfl⟩
  rw [hsame.gather_answered, htwin.gather_answered, hasked]

theorem call_register (e : Engine σ) (name : String) (act : Native σ) :
    (e.call (.ask (.register name act))).2 = e.register name act := rfl

/-- Builds a native and asks for a frame. -/
def building (name : String) : List (Call Unit) :=
  [.ask (.build name), .ask (.processBlock #[.half] #[.half])]

/-- An engine behind the first frame of a program that is one native. -/
def playedOnce (e : Engine Unit) (name : String) (act : Native Unit) : Engine Unit :=
  (e.installed ⟨[.native name act], []⟩).advanced 1

theorem gather_building {α : Type} {f : Engine Unit → Call Unit → List α} {e : Engine Unit}
    {name : String} {act : Native Unit} (hname : tokenize name = [⟨.name, name, .start⟩])
    (h : e.dictionary.lookup name = some (.native act)) (calls : List (Call Unit)) :
    e.gather f (building name ++ calls) = f e (.ask (.build name))
      ++ (f (e.installed ⟨[.native name act], []⟩) (.ask (.processBlock #[.half] #[.half]))
        ++ (e.playedOnce name act).gather f calls) := by
  change _ ++ (_ ++ _) = _
  rw [call, perform_build_native hname h, call, perform_processBlock]
  rfl

/-- Room for one fault, and two natives that fault on an empty stack. -/
def faultingPair : Engine Unit :=
  ((new { faultQueue := 0 } ()).register "drop" Builtin.drop).register "swap" Builtin.swap

/-- Both natives, one after the other; only then is a fault received. -/
def faultingTwice : List (Call Unit) :=
  .ask (.register "drop" Builtin.drop) :: .ask (.register "swap" Builtin.swap) ::
    (building "drop" ++ (building "swap" ++ [.receive]))

/-- Of these calls only the blocks and the reading give something to gather. -/
theorem gather_faultingTwice {α : Type} (f : Engine Unit → Call Unit → List α)
    (hregister : ∀ e name act, f e (.ask (.register name act)) = [])
    (hbuild : ∀ e source, f e (.ask (.build source)) = []) :
    (new { faultQueue := 0 } ()).gather f faultingTwice =
      f (faultingPair.installed ⟨[.native "drop" Builtin.drop], []⟩)
          (.ask (.processBlock #[.half] #[.half]))
        ++ (f ((faultingPair.playedOnce "drop" Builtin.drop).installed
            ⟨[.native "swap" Builtin.swap], []⟩) (.ask (.processBlock #[.half] #[.half]))
          ++ f ((faultingPair.playedOnce "drop" Builtin.drop).playedOnce "swap" Builtin.swap)
            .receive) := by
  have hdrop : faultingPair.dictionary.lookup "drop" = some (.native Builtin.drop) := by
    rw [faultingPair, register, define, Dictionary.lookup_define, if_neg (by decide), register,
      define, Dictionary.lookup_define, if_pos rfl]
  have hswap : (faultingPair.playedOnce "drop" Builtin.drop).dictionary.lookup "swap"
      = some (.native Builtin.swap) := by
    rw [playedOnce, advanced, installed, Dictionary.lookup_commit]
    exact (Dictionary.lookup_define _ _ _ _).trans (if_pos rfl)
  rw [faultingTwice, gather, gather, hregister, hregister, call_register, call_register,
    ← faultingPair, gather_building (by cbv) hdrop, gather_building (by cbv) hswap, hbuild, hbuild]
  simp only [gather, List.nil_append, List.append_nil]

/-- With room for one fault the second one finds the first unread and is dropped. With room for
more, and without a reader, everything else is answered alike. -/
theorem faults_delivered_twice :
    (new { faultQueue := 0 } ()).gather raisedAmid faultingTwice
        = [(.underflow "drop", []), (.underflow "swap", [.underflow "drop"])] ∧
      (new { faultQueue := 0 } ()).gather received faultingTwice = [.underflow "drop"] ∧
      (new { faultQueue := 0 } ()).DeliversFaults 1 faultingTwice ∧
      [.underflow "drop"] <:+ kept 1 [(.underflow "drop", [])] ∧
      (new { faultQueue := 0 } ()).Twin (new { faultQueue := 9 } ()) ∧
      (new { faultQueue := 9 } ()).gather answered faultingTwice.dropLast
        = (new { faultQueue := 0 } ()).gather answered faultingTwice := by
  have hquiet : ∀ (e : Engine Unit) source, (e.perform (.build source)).1.fault? = none ∧
      (e.perform (.build source)).1.received = [] := by
    intro e source
    rcases e.perform_of_isBuild (r := .build source) trivial with
      ⟨error, heq⟩ | ⟨tokens, c, -, heq⟩ <;> rw [heq] <;> exact ⟨rfl, rfl⟩
  have hraised : (new { faultQueue := 0 } ()).gather raisedAmid faultingTwice
      = [(.underflow "drop", []), (.underflow "swap", [.underflow "drop"])] := by
    rw [gather_faultingTwice _ (fun _ _ _ ↦ rfl) fun e source ↦ by
      rw [raisedAmid, raised, call, (hquiet e source).1]; rfl]
    rfl
  have hreceived : (new { faultQueue := 0 } ()).gather received faultingTwice
      = [.underflow "drop"] := by
    rw [gather_faultingTwice _ (fun _ _ _ ↦ rfl) fun e source ↦ (hquiet e source).2]
    rfl
  have hdelivers := faults_delivered { faultQueue := 0 } () faultingTwice
  have htwin : (new { faultQueue := 0 } ()).Twin (new { faultQueue := 9 } ()) := ⟨rfl, rfl, rfl⟩
  exact ⟨hraised, hreceived, hdelivers.1, (hdelivers.1.fate [_] _ _ [] hraised).1, htwin,
    hdelivers.2 _ _ _ htwin rfl⟩

end Engine

end StackSynth
