import StackSynth.Storage.Path

/-!
# The home directory in front of a path

A path with a tilde in front is put behind the home directory. If that is a path from the root then
the result starts with a slash, so there is no tilde in front any more and the path stays as it is
(`expandHome_expandHome`).
-/

namespace StackSynth.Path

/-- The parts that were split off already stay in front. -/
theorem splitOnAux_append (s sep : String) (b i j : String.Pos.Raw) (r : List String) :
    ∃ more, s.splitOnAux sep b i j r = r.reverse ++ more := by
  induction b, i, j, r using String.splitOnAux.induct s sep with
  | case1 b i j r hend =>
    rw [String.splitOnAux, if_pos hend, List.reverse_cons]
    exact ⟨_, rfl⟩
  | case2 b i j r hend hmatch i' j' hfull ih =>
    obtain ⟨more, ih⟩ := ih
    rw [String.splitOnAux, if_neg hend, if_pos hmatch, if_pos hfull]
    exact ⟨_, by rw [ih, List.reverse_cons, List.append_assoc]⟩
  | case3 b i j r hend hmatch i' j' hpart ih =>
    rw [String.splitOnAux, if_neg hend, if_pos hmatch, if_neg hpart]
    exact ih
  | case4 b i j r hend hmatch ih =>
    rw [String.splitOnAux, if_neg hend, if_neg hmatch]
    exact ih

/-- A path from the root has nothing in front of its first slash. -/
theorem splitOn_of_isAbsolute {path : String} (h : isAbsolute path = true) :
    ∃ rest, path.splitOn "/" = "" :: rest := by
  rw [isAbsolute, decide_eq_true_iff] at h
  obtain ⟨cs, hcs⟩ : ∃ cs, path.toList = '/' :: cs := List.head?_eq_some_iff.mp h
  have hget : String.Pos.Raw.get path 0 = '/' :=
    congrArg (String.Pos.Raw.utf8GetAux · 0 0) hcs
  have hend : String.Pos.Raw.atEnd path 0 = false := by
    refine decide_eq_false fun hle ↦ ?_
    obtain rfl := String.utf8ByteSize_eq_zero_iff.mp (Nat.le_zero.mp hle)
    cases hcs
  have hnext : String.Pos.Raw.next path 0 = ⟨1⟩ :=
    congrArg ((0 : String.Pos.Raw) + · : Char → String.Pos.Raw) hget
  obtain ⟨more, hmore⟩ := splitOnAux_append path "/" ⟨1⟩ ⟨1⟩ 0 [""]
  refine ⟨more, ?_⟩
  rw [String.splitOn, if_neg (by decide), String.splitOnAux, if_neg (by rw [hend]; decide),
    if_pos (by rw [hget]; decide), if_pos (by decide), hnext]
  exact hmore

theorem isAbsolute_join {home : String} (h : isAbsolute home = true) (rest : String) :
    isAbsolute (join home rest) = true := by
  rw [isAbsolute, decide_eq_true_iff] at h ⊢
  obtain ⟨cs, hcs⟩ : ∃ cs, home.toList = '/' :: cs := List.head?_eq_some_iff.mp h
  rw [join]
  split <;> simp [hcs]

/-- **The home directory is put in once.** -/
theorem expandHome_expandHome {home : String} (h : isAbsolute home = true) (path : String) :
    expandHome home (expandHome home path) = expandHome home path := by
  have hother : ∀ path, (∀ rest, path.splitOn "/" ≠ "~" :: rest) → expandHome home path = path := by
    intro path hne
    rw [expandHome]
    split
    next rest heq => exact absurd heq (hne rest)
    next => rfl
  rw [expandHome.eq_def home path]
  split
  next rest _ =>
    obtain ⟨parts, hparts⟩ := splitOn_of_isAbsolute
      (isAbsolute_join h ("/".intercalate (trimBack (trimFront rest))))
    refine hother _ fun rest' heq ↦ ?_
    rw [hparts] at heq
    exact absurd (List.cons.inj heq).1 (by decide)
  next hne => exact hother path hne

end StackSynth.Path
