import StackSynth.Storage.Folder

/-!
# Reading what was written

A write that is not refused puts a file where its path leads, and the path goes on leading there:
none of the directories on the way is touched (`Folder.locate_put`). So what is read through the
path afterwards is what was written, with its stamp.

The smallest folders to read from and to write to hold one file, with a name that is not split
(`Folder.single`).
-/

namespace StackSynth

namespace Folder

variable {f f' : Folder} {place place' : List String} {path : String} {node : Node}

/-- Only directories stand on the way to the working directory. -/
theorem isPrefixOf_here (h : f.node? place ≠ some .directory) :
    place.isPrefixOf f.here = false := by
  rw [node?] at h
  split at h
  next => exact absurd rfl h
  next hpre => exact Bool.eq_false_iff.2 hpre

theorem node?_put_self (h : f.node? place ≠ some .directory) :
    (f.put place node).node? place = some node := by
  rw [node?, put, if_neg (by rw [isPrefixOf_here h]; exact Bool.false_ne_true), List.find?_append,
    List.find?_eq_none.mpr (by simp)]
  simp

theorem node?_put_of_ne (h : place' ≠ place) :
    (f.put place node).node? place' = f.node? place' := by
  rw [node?, put, node?, List.find?_append, List.find?_filter,
    List.find?_cons_of_neg (by simp [h.symm]), List.find?_nil, Option.or_none]
  congr 3
  funext entry
  by_cases hp : entry.1 = place'
  · simp [hp, h]
  · simp [hp]

/-- A walk through directories is the same after something else than a directory was replaced. -/
theorem walk_put {parts : List String} {start : List String} (h : f.node? place ≠ some .directory)
    (hwalk : f.walk start parts = .ok place') :
    (f.put place node).walk start parts = .ok place' := by
  induction parts generalizing start with
  | nil => exact hwalk
  | cons part parts ih =>
    rw [walk] at hwalk
    split at hwalk
    next => cases hwalk
    next => cases hwalk
    next hdir =>
      have hne : start ≠ place := by
        rintro rfl
        exact h hdir
      rw [walk, node?_put_of_ne hne, hdir]
      exact ih hwalk

theorem locate_put (h : f.node? place ≠ some .directory) (hlocate : f.locate path = .ok place') :
    (f.put place node).locate path = .ok place' := by
  rw [locate] at hlocate ⊢
  split at hlocate
  next => cases hlocate
  next hpath =>
    rw [if_neg hpath]
    exact walk_put h hlocate

/-- What a write that is not refused does. -/
theorem exists_put_of_write {content : Array UInt8} {stamp : Nat}
    (h : f.write path content stamp = .ok f') :
    ∃ place, f.locate path = .ok place ∧ f.node? place ≠ some .directory ∧
      Path.mustBeDirectory path = false ∧ f' = f.put place (.file content stamp) := by
  rw [write] at h
  rcases hlocate : f.locate path with e | place
  · rw [hlocate] at h
    cases h
  · rw [hlocate] at h
    simp only [Bind.bind, Except.bind] at h
    refine ⟨place, rfl, ?_⟩
    cases hfile : Path.mustBeDirectory path with
    | true =>
      rw [hfile] at h
      split at h <;> cases h
    | false =>
      rw [hfile] at h
      split at h
      next => cases h
      next hnode =>
        cases h
        exact ⟨by rw [hnode]; simp, rfl, rfl⟩
      next hnode =>
        cases h
        exact ⟨by rw [hnode]; simp, rfl, rfl⟩

variable {content : Array UInt8} {stamp : Nat}

theorem get_write (h : f.write path content stamp = .ok f') :
    f'.get path = .ok (.file content stamp) := by
  obtain ⟨place, hlocate, hnode, hfile, rfl⟩ := exists_put_of_write h
  rw [get, locate_put hnode hlocate]
  simp [Bind.bind, Except.bind, node?_put_self hnode, hfile]

/-- What is read is what was written. -/
theorem read_write (h : f.write path content stamp = .ok f') : f'.read path = .ok content := by
  rw [read, get_write h]
  rfl

/-- Whether a write is refused does not depend on what is written. -/
theorem exists_write (h : f.write path content stamp = .ok f') (content' : Array UInt8) :
    ∃ f'', f.write path content' stamp = .ok f'' := by
  rw [write] at h ⊢
  rcases hlocate : f.locate path with e | place
  · rw [hlocate] at h
    cases h
  · rw [hlocate] at h
    simp only [Bind.bind, Except.bind] at h ⊢
    split at h
    next => cases h
    all_goals
      split at h
      next => cases h
      next hfile => exact ⟨_, if_neg hfile⟩

/-- The stamp is that of the write. -/
theorem modified?_write (h : f.write path content stamp = .ok f') :
    f'.modified? path = some stamp := by
  rw [modified?, get_write h]

end Folder

/-! ## Names that are not split -/

/-- A name that means an entry of the working directory. -/
structure Path.IsBare (name : String) : Prop where
  split : name.splitOn "/" = [name]
  ne_empty : name ≠ ""
  ne_here : name ≠ "."
  ne_above : name ≠ ".."
  relative : isAbsolute name = false

namespace Path

/-- Splitting passes over what is no slash. -/
theorem splitOnAux_of_ne {s : String} {b i : String.Pos.Raw} {r : List String}
    (hend : String.Pos.Raw.atEnd s i = false) (hne : (String.Pos.Raw.get s i == '/') = false) :
    s.splitOnAux "/" b i 0 r = s.splitOnAux "/" b (String.Pos.Raw.next s i) 0 r := by
  have hslash : String.Pos.Raw.get "/" 0 = '/' := by decide
  have hback : String.Pos.Raw.unoffsetBy i 0 = i := rfl
  rw [String.splitOnAux, if_neg (by rw [hend]; exact Bool.false_ne_true), hslash,
    if_neg (by rw [hne]; exact Bool.false_ne_true), hback]

/-- The position of a character. -/
def pos (s : String) (n : Nat) : String.Pos.Raw := Nat.repeat (String.Pos.Raw.next s) n 0

/-- What `n` characters without a slash are split into, if there are no more. -/
theorem splitOn_eq_singleton {s : String} (n : Nat)
    (hmore : ∀ k < n, String.Pos.Raw.atEnd s (pos s k) = false ∧
      (String.Pos.Raw.get s (pos s k) == '/') = false)
    (hend : String.Pos.Raw.atEnd s (pos s n) = true) :
    s.splitOn "/" = [String.Pos.Raw.extract s 0 (pos s n)] := by
  have hpass : ∀ k ≤ n, s.splitOnAux "/" 0 0 0 [] = s.splitOnAux "/" 0 (pos s k) 0 [] := by
    intro k hk
    induction k with
    | zero => rfl
    | succ k ih =>
      obtain ⟨hat, hne⟩ := hmore k hk
      rw [ih (Nat.le_of_succ_le hk), splitOnAux_of_ne hat hne]
      rfl
  rw [String.splitOn, if_neg (by decide), hpass n (Nat.le_refl n), String.splitOnAux, if_pos hend]
  rfl

namespace IsBare

variable {name : String}

theorem components (h : IsBare name) : Path.components name = [name] := by
  rw [Path.components, h.split]
  simp [h.ne_empty, h.ne_here]

theorem mustBeDirectory (h : IsBare name) : Path.mustBeDirectory name = false := by
  rw [Path.mustBeDirectory, h.split]
  rfl

theorem fileName? (h : IsBare name) : Path.fileName? name = some name := by
  rw [Path.fileName?, h.components, List.getLast?_singleton]
  split
  next heq => exact absurd (Option.some.inj heq) h.ne_above
  next heq => cases heq
  next heq => exact heq.symm

end IsBare

end Path

namespace Folder

/-- A folder that holds one file, in the working directory. -/
def single (name : String) (content : Array UInt8) (stamp : Nat) : Folder :=
  ⟨[], [([name], .file content stamp)]⟩

variable {name : String} {content : Array UInt8} {stamp : Nat}

theorem locate_single (h : Path.IsBare name) (content : Array UInt8) (stamp : Nat) :
    (single name content stamp).locate name = .ok [name] := by
  rw [locate, if_neg h.ne_empty, start, h.relative, h.components]
  simp [single, walk, node?, step, h.ne_above]

theorem node?_single (name : String) (content : Array UInt8) (stamp : Nat) :
    (single name content stamp).node? [name] = some (.file content stamp) := by
  simp [single, node?]

theorem get_single (h : Path.IsBare name) (content : Array UInt8) (stamp : Nat) :
    (single name content stamp).get name = .ok (.file content stamp) := by
  rw [get, locate_single h]
  simp [Bind.bind, Except.bind, node?_single, h.mustBeDirectory]

theorem read_single (h : Path.IsBare name) (content : Array UInt8) (stamp : Nat) :
    (single name content stamp).read name = .ok content := by
  rw [read, get_single h]
  rfl

theorem modified?_single (h : Path.IsBare name) (content : Array UInt8) (stamp : Nat) :
    (single name content stamp).modified? name = some stamp := by
  rw [modified?, get_single h]

theorem write_single (h : Path.IsBare name) (content content' : Array UInt8) (stamp stamp' : Nat) :
    (single name content stamp).write name content' stamp' =
      .ok (single name content' stamp') := by
  rw [write, locate_single h]
  simp only [Bind.bind, Except.bind, node?_single, h.mustBeDirectory]
  simp [put, single]

end Folder

end StackSynth
