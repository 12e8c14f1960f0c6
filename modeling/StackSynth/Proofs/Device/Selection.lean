import StackSynth.Device.Choice
import StackSynth.Proofs.Console.Lines
import StackSynth.Proofs.Number.Written

/-!
# The devices that are listed and the devices that are chosen

A listing numbers the devices that tell their names (`listing_iff`), and a choice by number counts
all of them. The two agree on a line exactly if every device before the one on the line tells its
name (`Shows.eq_iff`), and so on all lines exactly if no device without a name stands before one
that has a name (`lines_are_places_iff`). On other machines the number of a line chooses another
device than the line shows (`Shows.choose_line`).

A name that a line shows always leads to the first device that bears it, unless the name reads as a
place (`Shows.choose_name`): it comes before all parts of names.

## What a search picks

`Picks` says which device a search is for, in the order in which places, names and parts of names
are tried. A choice succeeds with this device (`choose_device_iff`), and fails if there is none,
which is when the search is neither a place of a device nor a part of a name (`choose_error_iff`).
-/

namespace StackSynth

namespace AudioMachine

variable {m : AudioMachine} {d e : Device} {i p q n : Nat} {search : String}

/-! ## Texts of searches -/

theorem occursIn_iff {part whole : List Char} : occursIn part whole = true ↔ part <:+: whole := by
  induction whole with
  | nil => rw [occursIn, List.isEmpty_iff, List.infix_nil]
  | cons c cs ih =>
    rw [occursIn, Bool.or_eq_true, List.isPrefixOf_iff_prefix, ih, List.infix_cons_iff]

/-- A search is for a part of the name of a device, whatever the case. -/
def Mentions (search : String) (d : Device) : Prop :=
  ∃ name, d.name = some name ∧
    (Lowercase.lower search).toList <:+: (Lowercase.lower name).toList

theorem fits_iff : fits search d = true ↔ Mentions search d := by
  rw [fits, Option.any_eq_true]
  simp only [occursIn_iff, Mentions]

/-- A name is a part of itself. -/
theorem mentions_of_name (h : d.name = some search) : Mentions search d :=
  ⟨search, h, List.infix_rfl⟩

/-- A place is read back from its digits. -/
theorem place?_toString (h : n < 2 ^ 64) : place? (toString n) = some n := by
  have hread : Numeral.readNatural? (toString n) = some n :=
    Numeral.readNatural?_eq_some_iff.mpr ⟨Nat.toDigits 10 n,
      ⟨Nat.toDigits_ne_nil, Numeral.isDigit_of_mem_toDigits⟩, .inl (toList_toString n),
      Numeral.ofDigits_toDigits n⟩
  rw [place?, hread, Option.filter_some]
  exact if_pos (decide_eq_true h)

/-! ## The device that a search picks -/

/-- The first device of a list with a property. -/
def First (P : Device → Prop) (devices : List Device) (d : Device) : Prop :=
  P d ∧ ∃ before after, devices = before ++ d :: after ∧ ∀ e ∈ before, ¬ P e

section First

variable {P : Device → Prop} {devices : List Device}

theorem find?_eq_some_iff_first {f : Device → Bool} (hf : ∀ e, f e = true ↔ P e) :
    devices.find? f = some d ↔ First P devices d := by
  rw [List.find?_eq_some_iff_append]
  simp only [First, Bool.not_eq_true', ← hf, Bool.not_eq_true]

theorem exists_first (h : d ∈ devices) (hd : P d) : ∃ e, First P devices e := by
  classical
  have hsome : (devices.find? (decide <| P ·)).isSome :=
    List.find?_isSome.mpr ⟨d, h, decide_eq_true hd⟩
  obtain ⟨e, he⟩ := Option.isSome_iff_exists.mp hsome
  exact ⟨e, (find?_eq_some_iff_first fun _ ↦ decide_eq_true_iff).mp he⟩

theorem First.mem (h : First P devices d) : d ∈ devices := by
  obtain ⟨-, before, after, rfl, -⟩ := h
  exact List.mem_append_right _ List.mem_cons_self

end First

/-- The device that a search is for. What reads as a place is never a name, and no part of a name
counts if there is a device of exactly this name. -/
inductive Picks (m : AudioMachine) (search : String) (d : Device) : Prop where
  | place {n : Nat} (reads : place? search = some n) (device : m.outputs[n]? = some d)
  | name (text : place? search = none) (first : First (·.name = some search) m.outputs d)
  | part (text : place? search = none) (absent : ∀ e ∈ m.outputs, e.name ≠ some search)
      (first : First (Mentions search) m.outputs d)

theorem find?_name_iff :
    (m.outputs.find? fun d ↦ d.name = some search) = some d ↔
      First (·.name = some search) m.outputs d :=
  find?_eq_some_iff_first fun _ ↦ decide_eq_true_iff

theorem head?_fitting_iff :
    (m.outputs.filter (fits search)).head? = some d ↔ First (Mentions search) m.outputs d := by
  rw [List.head?_filter]
  exact find?_eq_some_iff_first fun _ ↦ fits_iff

theorem find?_name_eq_none_iff :
    (m.outputs.find? fun d ↦ d.name = some search) = none ↔
      ∀ e ∈ m.outputs, e.name ≠ some search := by
  simp only [List.find?_eq_none, decide_eq_true_iff, ne_eq]

theorem picks_of_choose {c : Choice} (h : m.choose search = .ok c) : m.Picks search c.device := by
  rw [choose] at h
  split at h
  next n hplace =>
    split at h
    next d hd =>
      cases h
      exact .place hplace hd
    next => cases h
  next htext =>
    split at h
    next d hd =>
      cases h
      exact .name htext (find?_name_iff.mp hd)
    next hnone =>
      -- All that is left to say is which device heads the list of those that fit.
      have hpart {d : Device} (hd : (m.outputs.filter (fits search)).head? = some d) :
          m.Picks search d :=
        .part htext (find?_name_eq_none_iff.mp hnone) (head?_fitting_iff.mp hd)
      split at h
      next => cases h
      next d hfit =>
        cases h
        exact hpart (by rw [hfit, List.head?_cons])
      next d others hmore hfit =>
        cases h
        exact hpart (by rw [hfit, List.head?_cons])

theorem Picks.exists_choose (h : m.Picks search d) :
    ∃ candidates, m.choose search = .ok ⟨d, candidates⟩ := by
  rw [choose]
  cases h with
  | place hplace hd =>
    rw [hplace]
    exact ⟨[], by simp only [hd]⟩
  | name htext hfirst =>
    rw [htext]
    exact ⟨[], by simp only [find?_name_iff.mpr hfirst]⟩
  | part htext habsent hfirst =>
    rw [htext]
    simp only [find?_name_eq_none_iff.mpr habsent]
    obtain ⟨others, hfit⟩ := List.head?_eq_some_iff.mp (head?_fitting_iff.mpr hfirst)
    rw [hfit]
    cases others with
    | nil => exact ⟨[], rfl⟩
    | cons e others => exact ⟨_, rfl⟩

/-- A choice succeeds with the device that the search is for. -/
theorem choose_device_iff :
    (∃ candidates, m.choose search = .ok ⟨d, candidates⟩) ↔ m.Picks search d :=
  ⟨fun ⟨_, h⟩ ↦ picks_of_choose h, Picks.exists_choose⟩

/-- A text is for some device if it is a part of a name. -/
theorem exists_picks_of_mentions (htext : place? search = none) (hd : d ∈ m.outputs)
    (hpart : Mentions search d) : ∃ e, m.Picks search e := by
  by_cases hname : ∃ e ∈ m.outputs, e.name = some search
  · obtain ⟨e, he, hname⟩ := hname
    obtain ⟨e, hfirst⟩ := exists_first (P := (·.name = some search)) he hname
    exact ⟨e, .name htext hfirst⟩
  · have habsent : ∀ e ∈ m.outputs, e.name ≠ some search :=
      fun e he hsame ↦ hname ⟨e, he, hsame⟩
    obtain ⟨e, hfirst⟩ := exists_first hd hpart
    exact ⟨e, .part htext habsent hfirst⟩

theorem exists_error_iff_not_picks :
    (∃ error, m.choose search = .error error) ↔ ∀ d, ¬ m.Picks search d := by
  simp only [← choose_device_iff]
  cases m.choose search with
  | error error => simp
  | ok c => simpa using ⟨c.device, c.candidates, rfl⟩

/-- A search is rejected exactly if it is a place behind the last device, or no place and no part of
a name. -/
theorem choose_error_iff :
    (∃ error, m.choose search = .error error) ↔
      (∀ n, place? search = some n → m.outputs.length ≤ n) ∧
        (place? search = none → ∀ d ∈ m.outputs, ¬ Mentions search d) := by
  rw [exists_error_iff_not_picks]
  constructor
  · intro hnone
    constructor
    · intro n hplace
      by_contra hlt
      exact hnone _ (.place hplace (List.getElem?_eq_getElem (Nat.lt_of_not_le hlt)))
    · intro htext d hd hpart
      obtain ⟨e, he⟩ := exists_picks_of_mentions htext hd hpart
      exact hnone e he
  · rintro ⟨hplaces, htexts⟩ d (⟨hplace, hd⟩ | ⟨htext, hfirst⟩ | ⟨htext, -, hfirst⟩)
    · have hlt := (List.getElem?_eq_some_iff.mp hd).1
      exact absurd (hplaces _ hplace) (Nat.not_le_of_lt hlt)
    · exact htexts htext d hfirst.mem (mentions_of_name hfirst.1)
    · exact htexts htext d hfirst.mem hfirst.1

/-! ## Lines of the listing -/

/-- A line of the listing shows the device at a place: this device tells its name, and as many
devices before it do as there are lines before this one. -/
structure Shows (m : AudioMachine) (i p : Nat) (d : Device) : Prop where
  device : m.outputs[p]? = some d
  named : d.name.isSome
  before : (m.outputs.take p).countP (·.name.isSome) = i

theorem isSome_describe (d : Device) : (describe d).isSome = d.name.isSome := Option.isSome_map

/-- What a filter keeps, by its place in the whole list. -/
theorem getElem?_filterMap_iff {α β : Type} {f : α → Option β} {xs : List α} {y : β} :
    (xs.filterMap f)[i]? = some y ↔
      ∃ p x, xs[p]? = some x ∧ f x = some y ∧ (xs.take p).countP (fun x ↦ (f x).isSome) = i := by
  induction xs generalizing i with
  | nil => simp
  | cons x xs ih =>
    -- The first element has place 0, and what stands behind it moves up by one.
    have hsplit (P : Nat → α → Prop) : (∃ p y, (x :: xs)[p]? = some y ∧ P p y) ↔
        P 0 x ∨ ∃ p y, xs[p]? = some y ∧ P (p + 1) y := by
      constructor
      · rintro ⟨p | p, y, hy, hp⟩
        · exact .inl (by obtain rfl := Option.some.inj hy; exact hp)
        · exact .inr ⟨p, y, hy, hp⟩
      · rintro (hp | ⟨p, y, hy, hp⟩)
        · exact ⟨0, x, rfl, hp⟩
        · exact ⟨p + 1, y, hy, hp⟩
    rw [hsplit]
    cases hx : f x with
    | none =>
      rw [List.filterMap_cons_none hx, ih]
      simp [hx]
    | some z =>
      rw [List.filterMap_cons_some hx]
      cases i with
      | zero => simp [hx]
      | succ i => simp [hx, ih]

/-- The lines of the listing. -/
theorem listing_iff {info : DeviceInfo} :
    m.listing[i]? = some info ↔ ∃ p d, m.Shows i p d ∧ describe d = some info := by
  rw [listing, getElem?_filterMap_iff]
  simp only [isSome_describe]
  constructor
  · rintro ⟨p, d, hd, hinfo, hbefore⟩
    have hnamed : d.name.isSome := by rw [← isSome_describe, hinfo, Option.isSome_some]
    exact ⟨p, d, ⟨hd, hnamed, hbefore⟩, hinfo⟩
  · rintro ⟨p, d, h, hinfo⟩
    exact ⟨p, d, h.device, hinfo, h.before⟩

namespace Shows

theorem lt_length (h : m.Shows i p d) : p < m.outputs.length :=
  (List.getElem?_eq_some_iff.mp h.device).1

theorem length_take (h : m.Shows i p d) : (m.outputs.take p).length = p :=
  List.length_take_of_le (Nat.le_of_lt h.lt_length)

/-- A line never has a greater number than the place of its device. -/
theorem le (h : m.Shows i p d) : i ≤ p := by
  have hle := List.countP_le_length (p := fun d : Device ↦ d.name.isSome) (l := m.outputs.take p)
  rwa [h.before, h.length_take] at hle

/-- The number of a line is the place of its device if no device before it keeps its name from the
listing, and only then. -/
theorem eq_iff (h : m.Shows i p d) : i = p ↔ ∀ e ∈ m.outputs.take p, e.name.isSome := by
  rw [← List.countP_eq_length, h.before, h.length_take]

/-- Lines are in the order of the devices. -/
theorem lt_of_lt {j : Nat} (hp : m.Shows i p d) (hq : m.Shows j q e) (hlt : p < q) : i < j := by
  have hcount : (m.outputs.take (p + 1)).countP (·.name.isSome) = i + 1 := by
    rw [List.take_add_one, hp.device, Option.toList_some, List.countP_append, hp.before,
      List.countP_singleton, if_pos hp.named]
  have hle := (List.take_prefix_take_left (l := m.outputs) hlt).sublist.countP_le
    (p := fun d : Device ↦ d.name.isSome)
  rw [hcount, hq.before] at hle
  exact hle

/-- A line shows one device only. -/
theorem place_unique (hp : m.Shows i p d) (hq : m.Shows i q e) : p = q := by
  rcases Nat.lt_trichotomy p q with hlt | rfl | hlt
  · exact absurd (hp.lt_of_lt hq hlt) (Nat.lt_irrefl i)
  · rfl
  · exact absurd (hq.lt_of_lt hp hlt) (Nat.lt_irrefl i)

end Shows

/-- The number of every line is the place of its device exactly if no device without a name stands
before one that has a name. -/
theorem lines_are_places_iff :
    (∀ i p d, m.Shows i p d → i = p) ↔
      ∀ p d, m.outputs[p]? = some d → d.name.isSome → ∀ e ∈ m.outputs.take p, e.name.isSome := by
  constructor
  · intro h p d hd hnamed
    have hshows : m.Shows _ p d := ⟨hd, hnamed, rfl⟩
    exact hshows.eq_iff.mp (h _ p d hshows)
  · exact fun h i p d hshows ↦ hshows.eq_iff.mpr (h p d hshows.device hshows.named)

/-! ## Choosing what a line shows -/

/-- The number of a line chooses the device that has this number among all devices. -/
theorem Shows.choose_line (h : m.Shows i p d) (hm : m.outputs.length ≤ 2 ^ 64) :
    ∃ e, m.outputs[i]? = some e ∧ m.choose (toString i) = .ok { device := e } := by
  have hlt : i < m.outputs.length := Nat.lt_of_le_of_lt h.le h.lt_length
  have hget := List.getElem?_eq_getElem hlt
  refine ⟨m.outputs[i], hget, ?_⟩
  rw [choose, place?_toString (Nat.lt_of_lt_of_le hlt hm)]
  simp only [hget]

/-- The only line shows the second device, and its number chooses the first. -/
example :
    let m : AudioMachine := { devices := [{ name := none }, { name := some "USB" }] }
    m.listing.map DeviceInfo.name = ["USB"] ∧
      (m.choose "0").toOption.map (·.device.name) = some none := by
  decide

/-- A name that a line shows chooses the first device that bears it, even if the name is a part of
the name of an earlier device. -/
theorem Shows.choose_name {name : String} (h : m.Shows i p d) (hname : d.name = some name)
    (htext : place? name = none) :
    ∃ e, First (·.name = some name) m.outputs e ∧ m.choose name = .ok { device := e } := by
  obtain ⟨e, hfirst⟩ := exists_first (P := (·.name = some name))
    (List.mem_of_getElem? h.device) hname
  refine ⟨e, hfirst, ?_⟩
  rw [choose, htext]
  simp only [find?_name_iff.mpr hfirst]

end AudioMachine

end StackSynth
