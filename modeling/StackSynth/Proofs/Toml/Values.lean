import StackSynth.Proofs.Toml.Quoted
import StackSynth.Proofs.Toml.Scalar
import StackSynth.Toml.Reader

/-!
# Written values are read back

Texts, natural numbers, finite numbers above zero and arrays of values that are read back are
written, and what is written is read as the same value (`ReadBack`).

## What follows a value

A reader takes what it needs from the front of a text, so a statement about it has to say what
stands behind. Behind a value there is the end of its line, a comma or the bracket that closes an
array (`Ends`), and `Reads` says that a text is read as a value in front of any of these. `bind_eq`
then leads from one reader in a sequence to the next.

## Fuel

Readers recurse on fuel. The length of a text is always enough, since the lines of an array are
longer than each of its items and than the array itself (`le_length_itemLines`).
-/

namespace StackSynth.Toml

open Numeral (isDigit)

variable {α β : Type}

/-! ## Readers in sequence -/

/-- Behind what a reader has read, the next reader goes on. -/
theorem bind_eq {r : Reader α} {next : α → Reader β} {cs cs' : List Char} {a : α}
    (h : r cs = some (a, cs')) : (r >>= next) cs = next a cs' := by
  change (r cs).bind _ = _
  rw [h]
  rfl

/-- Readers in sequence go on alike once the first one has read alike. -/
theorem bind_congr {r : Reader α} {cs cs' : List Char} (h : r cs = r cs') (next : α → Reader β) :
    (r >>= next) cs = (r >>= next) cs' := by
  change (r cs).bind _ = (r cs').bind _
  rw [h]

theorem peek_cons (c : Char) (cs : List Char) : peek (c :: cs) = some (some c, c :: cs) := rfl

theorem expect_cons (c : Char) (cs : List Char) : expect c (c :: cs) = some ((), cs) := if_pos rfl

/-! ## Blanks -/

/-- Neither a blank nor the start of a comment or of a line break. -/
def isSolid (c : Char) : Bool := c ≠ ' ' && c ≠ '\t' && c ≠ '#' && c ≠ '\n' && c ≠ '\r'

theorem blanks_cons {c : Char} (hspace : c ≠ ' ') (htab : c ≠ '\t') (cs : List Char) :
    blanks (c :: cs) = some ((), c :: cs) := by
  rw [blanks, List.dropWhile_cons, if_neg (by simp [hspace, htab])]

theorem blanks_space (cs : List Char) : blanks (' ' :: cs) = blanks cs := by
  rw [blanks, List.dropWhile_cons, if_pos (by rfl), blanks]

theorem comment_cons {c : Char} (h : c ≠ '#') (cs : List Char) :
    comment (c :: cs) = some ((), c :: cs) := by
  rw [comment]
  rintro cs' heq
  exact h (List.cons.inj heq).1

theorem endLine_lineFeed (cs : List Char) : endLine ('\n' :: cs) = some ((), cs) := by
  rw [endLine, bind_eq (blanks_cons (by decide) (by decide) cs),
    bind_eq (comment_cons (by decide) cs)]
  rfl

theorem blankLines_solid {c : Char} (h : isSolid c = true) (fuel : Nat) (cs : List Char) :
    blankLines (fuel + 1) (c :: cs) = some ((), c :: cs) := by
  simp only [isSolid, ne_eq, Bool.and_eq_true, decide_eq_true_eq] at h
  obtain ⟨⟨⟨⟨hspace, htab⟩, hcomment⟩, hn⟩, hreturn⟩ := h
  have hline : startsLineBreak (c :: cs) = false := by
    rw [startsLineBreak]
    · exact fun cs' heq ↦ hn (List.cons.inj heq).1
    · exact fun cs' heq ↦ hreturn (List.cons.inj heq).1
  rw [blankLines, bind_eq (blanks_cons hspace htab cs), bind_eq (comment_cons hcomment cs)]
  simp only [hline]
  rfl

theorem blankLines_space (fuel : Nat) (cs : List Char) :
    blankLines fuel (' ' :: cs) = blankLines fuel cs := by
  cases fuel with
  | zero => rfl
  | succ fuel =>
    rw [blankLines]
    exact bind_congr (blanks_space cs) _

theorem blankLines_lineFeed (fuel : Nat) (cs : List Char) :
    blankLines (fuel + 1) ('\n' :: cs) = blankLines fuel cs := by
  rw [blankLines, bind_eq (blanks_cons (by decide) (by decide) cs),
    bind_eq (comment_cons (by decide) cs)]
  rfl

/-! ## Values -/

/-- What may follow a value. -/
def Ends (rest : List Char) : Prop := ∃ c cs, rest = c :: cs ∧ (c = '\n' ∨ c = ',' ∨ c = ']')

/-- A text that is read as a value with at most `depth` further levels of values in it, whatever
follows; its length is fuel enough. -/
structure Reads (depth : Nat) (v : Value) (text : List Char) : Prop where
  solid : ∃ c cs, text = c :: cs ∧ isSolid c = true ∧ c ≠ ']'
  read : ∀ {fuel rest}, text.length ≤ fuel → Ends rest →
    value depth fuel (text ++ rest) = some (v, rest)

theorem value_bare {c : Char} (hc : isDigit c = true) (depth fuel : Nat) (cs : List Char) :
    value depth fuel (c :: cs) = bareValue (c :: cs) := by
  have hne : ∀ d, isDigit d = false → some c ≠ some d := by
    rintro d hd heq
    rw [← Option.some.inj heq, hc] at hd
    cases hd
  cases depth <;> rw [value, bind_eq (peek_cons c cs)] <;>
    refine congrFun (?_ : _ = bareValue) (c :: cs)
  all_goals
    split
    next heq => exact absurd heq (hne _ rfl)
    next heq => exact absurd heq (hne _ rfl)
    next heq => exact absurd heq (hne _ rfl)
    next heq => exact absurd heq (hne _ rfl)
    next => rfl

theorem value_text {c : Char} {cs rest : List Char} {s : String} (hc : c = '"' ∨ c = '\'')
    (h : readText (c :: cs) = some (s, rest)) (depth fuel : Nat) :
    value depth fuel (c :: cs) = some (.text s, rest) := by
  have hread : (do return Value.text (← readText) : Reader Value) (c :: cs)
      = some (.text s, rest) := by
    rw [bind_eq h]
    rfl
  rcases hc with rfl | rfl <;> cases depth <;> rw [value, bind_eq (peek_cons _ cs)] <;> exact hread

theorem value_array {cs rest : List Char} {vs : List Value} {depth fuel : Nat}
    (h : arrayItems (value depth fuel) fuel cs = some (vs, rest)) :
    value (depth + 1) fuel ('[' :: cs) = some (.array vs, rest) := by
  rw [value, bind_eq (peek_cons '[' cs)]
  change (expect '[' >>= _) ('[' :: cs) = _
  rw [bind_eq (expect_cons '[' cs), bind_eq h]
  rfl

/-! ## Scalars -/

theorem Ends.ne {rest : List Char} (h : Ends rest) {c : Char}
    (hc : c ≠ '\n' ∧ c ≠ ',' ∧ c ≠ ']') : rest.head? ≠ some c := by
  obtain ⟨d, cs, rfl, hd⟩ := h
  rw [List.head?_cons]
  rintro heq
  obtain rfl := Option.some.inj heq
  rcases hd with hd | hd | hd
  · exact hc.1 hd
  · exact hc.2.1 hd
  · exact hc.2.2 hd

/-- **A text in quotes is read back.** -/
theorem reads_writeText (depth : Nat) (s : String) :
    Reads depth (.text s) (writeText s).toList := by
  obtain ⟨c, cs, htext, hc⟩ := exists_writeText_cons s
  constructor
  · refine ⟨c, cs, htext, ?_⟩
    rcases hc with rfl | rfl <;> decide
  · intro fuel rest _ hends
    have hread := readText_writeText s (hends.ne (c := '"') (by decide))
      (hends.ne (c := '\'') (by decide))
    rw [htext] at hread ⊢
    exact value_text hc hread depth fuel

/-- A bare value ends where a value ends. -/
theorem takeWhile_isBare {cs rest : List Char} (hcs : ∀ c ∈ cs, isBare c = true)
    (hends : Ends rest) : (cs ++ rest).takeWhile isBare = cs := by
  obtain ⟨c, rest, rfl, hc⟩ := hends
  have hstop : isBare c = false := by rcases hc with rfl | rfl | rfl <;> rfl
  rw [List.takeWhile_append_of_pos hcs, List.takeWhile_cons, hstop, if_neg Bool.false_ne_true,
    List.append_nil]

/-- **A number in its places is read back.** -/
theorem IsNumber.reads {cs : List Char} (h : IsNumber cs) {v : Value}
    (hv : Toml.readBare? cs = some v) (depth : Nat) : Reads depth v cs := by
  obtain ⟨c, cs', rfl⟩ := List.exists_cons_of_ne_nil h.ne_nil
  have hc := h.first c rfl
  constructor
  · have hne : ∀ d, isDigit d = false → c ≠ d := by
      rintro d hd rfl
      rw [hc] at hd
      cases hd
    refine ⟨c, cs', rfl, ?_, hne ']' rfl⟩
    simp [isSolid, hne ' ' rfl, hne '\t' rfl, hne '#' rfl, hne '\n' rfl, hne '\r' rfl]
  · intro fuel rest _ hends
    rw [List.cons_append, value_bare hc, ← List.cons_append, bareValue,
      takeWhile_isBare h.all_isBare hends, List.drop_left, h.afterDate?, List.append_nil,
      hv]
    rfl

/-! ## Arrays -/

section Arrays

variable {depth fuel count : Nat} {lead rest : List Char}

theorem arrayItems_close {item : Reader Value}
    (h : blankLines (count + 1) lead = some ((), ']' :: rest)) :
    arrayItems item (count + 1) lead = some ([], rest) := by
  rw [arrayItems, bind_eq h, bind_eq (peek_cons ']' rest), if_pos rfl,
    bind_eq (expect_cons ']' rest)]
  rfl

variable {v : Value} {vs : List Value} {text cs : List Char}

/-- An item is read, and then what follows it decides. -/
theorem arrayItems_item (hv : Reads depth v text) (hfuel : text.length ≤ fuel) (hends : Ends cs)
    (h : blankLines (count + 1) lead = some ((), text ++ cs)) :
    arrayItems (value depth fuel) (count + 1) lead = (do
      blankLines (count + 1)
      if (← peek) = some ',' then
        expect ','
        return v :: (← arrayItems (value depth fuel) count)
      else
        expect ']'
        return [v] : Reader (List Value)) cs := by
  have hread := hv.read hfuel hends
  obtain ⟨c, text, rfl, -, hc⟩ := hv.solid
  have hc' : some c ≠ some ']' := fun heq ↦ hc (Option.some.inj heq)
  rw [arrayItems, bind_eq h, List.cons_append, bind_eq (peek_cons c _), if_neg hc',
    ← List.cons_append, bind_eq hread]

theorem arrayItems_last (hv : Reads depth v text) (hfuel : text.length ≤ fuel)
    (h : blankLines (count + 1) lead = some ((), text ++ ']' :: rest)) :
    arrayItems (value depth fuel) (count + 1) lead = some ([v], rest) := by
  rw [arrayItems_item hv hfuel ⟨']', rest, rfl, Or.inr (Or.inr rfl)⟩ h,
    bind_eq (blankLines_solid (by decide) count rest), bind_eq (peek_cons ']' rest),
    if_neg (by decide), bind_eq (expect_cons ']' rest)]
  rfl

theorem arrayItems_comma (hv : Reads depth v text) (hfuel : text.length ≤ fuel)
    (h : blankLines (count + 1) lead = some ((), text ++ ',' :: cs))
    (hvs : arrayItems (value depth fuel) count cs = some (vs, rest)) :
    arrayItems (value depth fuel) (count + 1) lead = some (v :: vs, rest) := by
  rw [arrayItems_item hv hfuel ⟨',', cs, rfl, Or.inr (Or.inl rfl)⟩ h,
    bind_eq (blankLines_solid (by decide) count cs), bind_eq (peek_cons ',' cs), if_pos rfl,
    bind_eq (expect_cons ',' cs), bind_eq hvs]
  rfl

theorem Reads.blankLines (hv : Reads depth v text) (count : Nat) (rest : List Char) :
    blankLines (count + 1) (text ++ rest) = some ((), text ++ rest) := by
  obtain ⟨c, cs, rfl, hc, -⟩ := hv.solid
  exact blankLines_solid hc count _

/-- The items of an array with one item on a line, up to the closing bracket. -/
def itemLines (texts : List (List Char)) : List Char :=
  texts.flatMap (fun text ↦ "\n    ".toList ++ text ++ [',']) ++ ['\n', ']']

theorem itemLines_cons (text : List Char) (texts : List (List Char)) (rest : List Char) :
    itemLines (text :: texts) ++ rest =
      '\n' :: ' ' :: ' ' :: ' ' :: ' ' :: (text ++ ',' :: (itemLines texts ++ rest)) := by
  simp [itemLines]

theorem arrayItems_itemLines {texts : List (List Char)}
    (h : List.Forall₂ (Reads depth) vs texts) (hfuel : ∀ text ∈ texts, text.length ≤ fuel)
    (hcount : texts.length + 2 ≤ count) (rest : List Char) :
    arrayItems (value depth fuel) count (itemLines texts ++ rest) = some (vs, rest) := by
  induction h generalizing count with
  | nil =>
    obtain ⟨count, rfl⟩ := Nat.exists_eq_add_of_le' hcount
    exact arrayItems_close (blankLines_lineFeed (count + 1) _)
  | cons hv _ ih =>
    rw [List.length_cons] at hcount
    obtain ⟨count, rfl⟩ : ∃ n, count = n + 2 := ⟨count - 2, by omega⟩
    rw [itemLines_cons]
    refine arrayItems_comma hv (hfuel _ List.mem_cons_self) ?_
      (ih (fun text hmem ↦ hfuel text (List.mem_cons_of_mem _ hmem)) (by omega))
    rw [blankLines_lineFeed, blankLines_space, blankLines_space, blankLines_space,
      blankLines_space]
    exact hv.blankLines _ _

/-- The lines of an array are at least as long as the array, and as each of its items. -/
theorem le_length_itemLines (texts : List (List Char)) :
    texts.length + 2 ≤ (itemLines texts).length ∧
      ∀ text ∈ texts, text.length ≤ (itemLines texts).length := by
  induction texts with
  | nil => exact ⟨le_rfl, fun _ h ↦ absurd h List.not_mem_nil⟩
  | cons text texts ih =>
    obtain ⟨hcount, htexts⟩ := ih
    have hlength : (itemLines (text :: texts)).length =
        text.length + (itemLines texts).length + 6 := by
      have hcons := congrArg List.length (itemLines_cons text texts [])
      simp only [List.append_nil, List.length_cons, List.length_append] at hcons
      omega
    rw [hlength]
    refine ⟨by rw [List.length_cons]; omega, fun t ht ↦ ?_⟩
    rcases List.mem_cons.mp ht with rfl | ht
    · omega
    · have hle := htexts t ht
      omega

theorem toList_arrayText_lines (texts : List String) (h : 2 ≤ texts.length) :
    (arrayText texts).toList = '[' :: itemLines (texts.map String.toList) := by
  have hlines : ∀ texts : List String,
      '\n' :: (texts.flatMap (fun text ↦ "    ".toList ++ (text.toList ++ ",\n".toList)) ++ [']']) =
        itemLines (texts.map String.toList) := by
    intro texts
    induction texts with
    | nil => rfl
    | cons text texts ih =>
      rw [List.map_cons, ← List.append_nil (itemLines _), itemLines_cons, List.append_nil, ← ih]
      simp
  rw [← hlines, arrayText]
  · simp [List.flatMap_map]
  · rintro rfl
    exact absurd h (by decide)
  · rintro text rfl
    exact absurd h (Nat.not_succ_le_self 1)

/-- **An array is read back if its items are.** -/
theorem reads_arrayText {texts : List String}
    (h : List.Forall₂ (Reads depth) vs (texts.map String.toList)) :
    Reads (depth + 1) (.array vs) (arrayText texts).toList := by
  rcases texts with _ | ⟨text, _ | ⟨text', texts⟩⟩
  · cases h
    constructor
    · exact ⟨'[', [']'], rfl, by decide⟩
    · intro fuel rest hfuel _
      obtain ⟨fuel, rfl⟩ := Nat.exists_eq_add_of_le' (Nat.le_of_succ_le hfuel)
      exact value_array (arrayItems_close (blankLines_solid (by decide) fuel rest))
  · obtain ⟨v, rfl, hv⟩ : ∃ v, vs = [v] ∧ Reads depth v text.toList := by
      cases h with
      | cons hv hvs =>
        cases hvs
        exact ⟨_, rfl, hv⟩
    have htext : (arrayText [text]).toList = '[' :: (text.toList ++ [']']) := by simp [arrayText]
    rw [htext]
    constructor
    · exact ⟨'[', _, rfl, by decide⟩
    · intro fuel rest hfuel _
      rw [List.length_cons, List.length_append, List.length_singleton] at hfuel
      obtain ⟨fuel, rfl⟩ : ∃ n, fuel = n + 1 := ⟨fuel - 1, by omega⟩
      rw [List.cons_append, List.append_assoc, List.singleton_append]
      exact value_array (arrayItems_last hv (by omega) (hv.blankLines fuel _))
  · rw [toList_arrayText_lines _ (by simp)]
    constructor
    · exact ⟨'[', _, rfl, by decide⟩
    · intro fuel rest hfuel _
      rw [List.cons_append]
      generalize (text :: text' :: texts).map String.toList = texts at h hfuel ⊢
      obtain ⟨hcount, htexts⟩ := le_length_itemLines texts
      rw [List.length_cons] at hfuel
      refine value_array (arrayItems_itemLines h (fun t ht ↦ ?_) (by omega) rest)
      have hle := htexts t ht
      omega

end Arrays

/-! ## Writing and reading -/

/-- A value that can be written, and that is read back from what is written. -/
def ReadBack (depth : Nat) (v : Value) : Prop :=
  ∃ text, writeValue v = some text ∧ Reads depth v text.toList

theorem readBack_text (depth : Nat) (s : String) : ReadBack depth (.text s) :=
  ⟨writeText s, by rw [writeValue], reads_writeText depth s⟩

theorem readBack_natural {n : Nat} (h : n < 2 ^ 63) (depth : Nat) :
    ReadBack depth (.integer n) := by
  refine ⟨toString n, ?_, ?_⟩
  · rw [writeValue, if_pos (isWord_natCast h)]
    rfl
  · rw [toList_toString]
    exact (isNumber_toDigits n).reads (readBare?_toDigits h) depth

theorem readBack_float {x : Float} (hx : Double.IsPositive x) (depth : Nat) :
    ReadBack depth (.float x) := by
  obtain ⟨hnumber, hread⟩ := readBare?_writeFloat hx
  exact ⟨writeFloat x, by rw [writeValue], hnumber.reads hread depth⟩

theorem readBack_array {depth : Nat} {vs : List Value} (h : ∀ v ∈ vs, ReadBack depth v) :
    ReadBack (depth + 1) (.array vs) := by
  have hitems : ∃ texts, writeItems vs = some texts ∧
      List.Forall₂ (Reads depth) vs (texts.map String.toList) := by
    induction vs with
    | nil => exact ⟨[], by rw [writeItems], .nil⟩
    | cons v vs ih =>
      obtain ⟨text, hwrite, hread⟩ := h v List.mem_cons_self
      obtain ⟨texts, hwrites, hreads⟩ := ih fun v hv ↦ h v (List.mem_cons_of_mem _ hv)
      refine ⟨text :: texts, ?_, .cons hread hreads⟩
      rw [writeItems, hwrite, hwrites]
      rfl
  obtain ⟨texts, hwrite, hreads⟩ := hitems
  exact ⟨arrayText texts, by rw [writeValue, hwrite]; rfl, reads_arrayText hreads⟩

end StackSynth.Toml
