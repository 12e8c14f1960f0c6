import StackSynth.Proofs.WaveFile.Reading

/-!
# Reading stereo files

What the reader makes of a stereo file: of the fields of its format chunk (`readFormat_fields`), of
the chunks up to the data (`readChunks_format`), of everything in front of the samples
(`header_format`) and of the samples (`reads_samples`). The encoding of the samples comes in with
the format chunk and with the reader of one sample only.

A file with samples as they are is read as it was written unless the header cannot say how many
bytes a second takes. Then it is refused, whatever it holds (`decode_encode`).
-/

namespace StackSynth.WaveFile

/-- The format of a stereo file with samples as they are. -/
def stereo (rate : Nat) : Format := ⟨2, rate, 32, 4, .float⟩

/-- The part of the format chunk that names the encoding. -/
def extension : List UInt8 :=
  littleEndian 2 22 ++ (littleEndian 2 32 ++ (littleEndian 4 3 ++ floatGuid))

/-- The format chunk of a stereo file with samples as they are. -/
def stereoFormat (rate : Nat) : List UInt8 :=
  littleEndian 2 0xfffe ++ (littleEndian 2 2 ++ (littleEndian 4 rate
    ++ (littleEndian 4 (8 * rate) ++ (littleEndian 2 8 ++ (littleEndian 2 32 ++ extension)))))

theorem header_eq (rate size : Nat) : header ⟨rate, 32⟩ size =
    tag "RIFF" ++ (littleEndian 4 (60 + size) ++ (tag "WAVE" ++ (tag "fmt " ++ (littleEndian 4 40
      ++ (stereoFormat rate ++ (tag "data" ++ littleEndian 4 size)))))) := by
  have hguid : floatGuid.length = 16 := rfl
  simp [header, stereoFormat, extension, hguid]

/-- The long format chunk says twice how many bits count, and names the encoding. -/
theorem reads_extensible {format result : Format} {guid : List UInt8} (hpos : 0 < format.bits)
    (hlt : format.bits < 256 ^ 2) (hlength : guid.length = 16)
    (hguid : (if guid = integerGuid then pure format
      else if guid = floatGuid then pure { format with encoding := .float }
      else fail .unsupported : ByteReader Format) = pure result) :
    Reads (extensibleFormat 40 format)
      (littleEndian 2 22 ++ (littleEndian 2 format.bits ++ (littleEndian 4 3 ++ guid))) result := by
  rw [extensibleFormat, require_of_true (by decide), pure_bind]
  refine (reads_number 2 22).bind ?_
  rw [require_of_true (by decide), pure_bind]
  refine (reads_number 2 format.bits).bind ((reads_skip (length_littleEndian 4 3)).bind ?_)
  rw [Nat.mod_eq_of_lt hlt, if_pos hpos]
  refine (reads_take hlength).bind_last ?_
  change Reads (if guid = integerGuid then pure format
    else if guid = floatGuid then pure { format with encoding := .float }
    else fail .unsupported) [] result
  rw [hguid]
  exact .pure result

/-- The fields that every format chunk of a stereo file begins with, for frames of `block` bytes. -/
def fields (kind rate block bits : Nat) (tail : List UInt8) : List UInt8 :=
  littleEndian 2 kind ++ (littleEndian 2 2 ++ (littleEndian 4 rate
    ++ (littleEndian 4 (block * rate) ++ (littleEndian 2 block ++ (littleEndian 2 bits ++ tail)))))

/-- Whether the fields are accepted depends on the rate only: the bytes of a second have to be
writable. What follows them is read by their kind. -/
theorem readFormat_fields {length kind block bits : Nat} {next : Nat → ByteReader Format}
    (hlength : 16 ≤ length) (hkind : kind < 256 ^ 2) (hblock : block < 256 ^ 2)
    (hbits : bits < 256 ^ 2) (hbytes : block / 2 * 8 < twoTo 16 ∧ bits ≤ block / 2 * 8)
    (hwhole : bits % 8 = 0) (hpos : bits ≠ 0)
    (hnext : ∀ rate, (match kind with
      | 1 => integerFormat length ⟨2, rate, bits, block / 2, .integer⟩
      | 3 => floatFormat length ⟨2, rate, bits, block / 2, .integer⟩
      | 0xfffe => extensibleFormat length ⟨2, rate, bits, block / 2, .integer⟩
      | _ => fail .unsupported) = next rate) (rate : Nat) (tail : List UInt8) :
    readFormat length (fields kind rate block bits tail) =
      if block * (rate % 256 ^ 4) < 256 ^ 4 then next (rate % 256 ^ 4) tail
      else .error (.illFormed .inconsistentRates) := by
  simp only [readFormat, fields]
  rw [require_of_true (decide_eq_true hlength), pure_bind, (reads_number 2 kind).bind_append,
    (reads_number 2 2).bind_append, (reads_number 4 rate).bind_append,
    (reads_number 4 (block * rate)).bind_append, (reads_number 2 block).bind_append,
    (reads_number 2 bits).bind_append, Nat.mod_eq_of_lt hkind, Nat.mod_eq_of_lt hblock,
    Nat.mod_eq_of_lt hbits, require_of_true (by decide), pure_bind,
    require_of_true (by simpa using hbytes), pure_bind]
  have hrates : decide (block * (rate % 256 ^ 4) < 256 ^ 4)
      = (decide (block * (rate % 256 ^ 4) < twoTo 32)
        && decide (block * rate % 256 ^ 4 = block * (rate % 256 ^ 4))) := by
    rw [Bool.eq_iff_iff, Bool.and_eq_true, decide_eq_true_eq, decide_eq_true_eq, decide_eq_true_eq,
      show twoTo 32 = 256 ^ 4 from rfl, ← Nat.mul_mod_mod]
    exact ⟨fun h ↦ ⟨h, Nat.mod_eq_of_lt h⟩, And.left⟩
  by_cases h : block * (rate % 256 ^ 4) < 256 ^ 4
  · rw [if_pos h, require_of_true (hrates.symm.trans (decide_eq_true h)), pure_bind,
      require_of_true (decide_eq_true hwhole), pure_bind,
      require_of_true (decide_eq_true hpos), pure_bind]
    exact congrFun (hnext _) tail
  · rw [if_neg h, require_bind_of_false (hrates.symm.trans (decide_eq_false h))]

theorem readFormat_stereo (rate : Nat) (rest : List UInt8) :
    readFormat 40 (stereoFormat rate ++ rest) =
      if 8 * (rate % 256 ^ 4) < 256 ^ 4 then .ok (stereo (rate % 256 ^ 4), rest)
      else .error (.illFormed .inconsistentRates) := by
  have hfields : stereoFormat rate ++ rest = fields 0xfffe rate 8 32 (extension ++ rest) := by
    simp only [stereoFormat, fields, List.append_assoc]
  rw [hfields, readFormat_fields (by decide) (by decide) (by decide) (by decide) (by decide)
    (by decide) (by decide) fun _ ↦ rfl]
  have hextension : Reads (extensibleFormat 40 ⟨2, rate % 256 ^ 4, 32, 4, .integer⟩) extension
      (stereo (rate % 256 ^ 4)) :=
    reads_extensible (show 0 < 32 by decide) (show 32 < 256 ^ 2 by decide) rfl
      ((if_neg (by decide)).trans (if_pos rfl))
  exact congrArg (fun x ↦ if 8 * (rate % 256 ^ 4) < 256 ^ 4 then x
    else .error (.illFormed .inconsistentRates)) (hextension rest)

/-! ## Chunks -/

section

variable {chunk : List UInt8} {x : Except WaveError Format} (hlength : chunk.length < 256 ^ 4)
  (hchunk : ∀ rest, readFormat chunk.length (chunk ++ rest) = x.map fun format ↦ (format, rest))

include hlength hchunk

/-- A format chunk and the chunk with the data. -/
theorem readChunks_format {fuel : Nat} (hfuel : 2 ≤ fuel) (size : Nat) (rest : List UInt8) :
    readChunks fuel none (tag "fmt " ++ (littleEndian 4 chunk.length ++ (chunk
      ++ (tag "data" ++ (littleEndian 4 size ++ rest)))))
      = x.map fun format ↦ ((format, size % 256 ^ 4), rest) := by
  have htag : ∀ {text : String}, (tag text).length = 4 → Reads (take 4) (tag text) (tag text) :=
    reads_take
  obtain ⟨fuel, rfl⟩ := Nat.exists_eq_add_of_le' hfuel
  rw [readChunks, (htag (by decide)).bind_append, (reads_number 4 chunk.length).bind_append,
    if_neg (by decide), if_pos rfl, bind_apply, Nat.mod_eq_of_lt hlength, hchunk]
  cases x with
  | error e => rfl
  | ok format =>
    change readChunks (fuel + 1) (some format) _ = _
    rw [readChunks, (htag (by decide)).bind_append, (reads_number 4 size).bind_append, if_pos rfl]
    rfl

/-- Everything in front of the samples. -/
theorem header_format {spec : StereoSpec} {total size : Nat}
    (hheader : header spec size = tag "RIFF" ++ (littleEndian 4 total ++ (tag "WAVE"
      ++ (tag "fmt " ++ (littleEndian 4 chunk.length ++ (chunk
        ++ (tag "data" ++ littleEndian 4 size)))))))
    (hsize : size < 256 ^ 4)
    (hframes : ∀ format, x = .ok format →
      size % format.bytes = 0 ∧ size / format.bytes % format.channels = 0) (rest : List UInt8) :
    readFile.header (header spec size ++ rest) = x.map fun format ↦ (format, size, rest) := by
  have htags : Reads (do
      require ((← take 4) = tag "RIFF") .noRiffTag
      skip 4
      require ((← take 4) = tag "WAVE") .noWaveTag : ByteReader Unit)
      (tag "RIFF" ++ (littleEndian 4 total ++ tag "WAVE")) () := by
    refine (reads_take (by decide)).bind ?_
    rw [require_of_true (decide_eq_true rfl), pure_bind]
    refine (reads_skip (length_littleEndian _ _)).bind ((reads_take (by decide)).bind_last ?_)
    rw [require_of_true (decide_eq_true rfl)]
    exact .pure ()
  have hstart : header spec size ++ rest = (tag "RIFF" ++ (littleEndian 4 total ++ tag "WAVE"))
      ++ (tag "fmt " ++ (littleEndian 4 chunk.length ++ (chunk ++ (tag "data"
        ++ (littleEndian 4 size ++ rest))))) := by
    rw [hheader]
    simp only [List.append_assoc]
  rw [hstart, readFile.header, htags]
  change (readChunks _ none _).bind _ = _
  rw [readChunks_format hlength hchunk (by simp; omega), Nat.mod_eq_of_lt hsize]
  cases x with
  | error e => rfl
  | ok format =>
    obtain ⟨hsamples, hframes⟩ := hframes format rfl
    change ((require (decide (size % format.bytes = 0)) .dataNotWholeSamples >>= fun _ ↦
      require (decide (size / format.bytes % format.channels = 0)) .dataNotWholeFrames :
        ByteReader Unit) rest).bind _ = _
    rw [require_of_true (decide_eq_true hsamples), pure_bind,
      require_of_true (decide_eq_true hframes)]
    rfl

end

theorem header_stereo {rate size : Nat} (hsize : size < 256 ^ 4) (hframes : size % 8 = 0)
    (rest : List UInt8) : readFile.header (header ⟨rate, 32⟩ size ++ rest) =
      if 8 * (rate % 256 ^ 4) < 256 ^ 4 then .ok (stereo (rate % 256 ^ 4), size, rest)
      else .error (.illFormed .inconsistentRates) := by
  have hlength : (stereoFormat rate).length = 40 := by
    have hguid : floatGuid.length = 16 := rfl
    simp [stereoFormat, extension, hguid]
  have hmap : ∀ {β : Type} (f : Format → β), Except.map f
      (if 8 * (rate % 256 ^ 4) < 256 ^ 4 then .ok (stereo (rate % 256 ^ 4))
        else .error (.illFormed .inconsistentRates))
      = if 8 * (rate % 256 ^ 4) < 256 ^ 4 then .ok (f (stereo (rate % 256 ^ 4)))
        else .error (WaveError.illFormed .inconsistentRates) := by
    intro β f
    split <;> rfl
  rw [← hmap fun format ↦ (format, size, rest)]
  refine header_format (by rw [hlength]; decide) (fun rest ↦ ?_)
    (by rw [hlength]; exact header_eq rate size) hsize ?_ rest
  · rw [hlength, readFormat_stereo, hmap fun format ↦ (format, rest)]
  · intro format hformat
    split at hformat
    next =>
      cases hformat
      exact ⟨show size % 4 = 0 by omega, show size / 4 % 2 = 0 by omega⟩
    next => cases hformat

/-! ## Samples -/

/-- Samples are read one after another. -/
theorem reads_samples {format : Format} {encoded : Sample → List UInt8} {value : Sample → Float}
    (h : ∀ s, Reads (readSample format) (encoded s) (value s)) (samples : List Sample)
    (out : Array Float) :
    Reads (readSamples format out samples.length) (samples.flatMap encoded)
      (out ++ (samples.map value).toArray) := by
  induction samples generalizing out with
  | nil =>
    rw [List.map_nil, Array.append_empty]
    exact .pure out
  | cons s samples ih =>
    have hout : out ++ ((s :: samples).map value).toArray
        = out.push (value s) ++ (samples.map value).toArray := by
      apply Array.ext'
      simp
    rw [List.flatMap_cons, List.length_cons, readSamples, hout]
    exact (h s).bind (ih _)

/-- A sample that is stored as it is. -/
theorem reads_sample (rate : Nat) (s : Sample) :
    Reads (readSample (stereo rate)) (encodeSample 32 s) s.toDouble := by
  have hbits : (s.bits.toNat % 256 ^ 4).toUInt32 = s.bits := by
    have hlt : s.bits.toNat < 256 ^ 4 := s.bits.toNat_lt
    rw [Nat.mod_eq_of_lt hlt]
    exact UInt32.ofNat_toNat
  refine (reads_number 4 s.bits.toNat).bind_last ?_
  rw [hbits]
  exact .pure _

/-! ## Files -/

/-- The samples of frames in the order in which they stand in a file. -/
def interleave (left right : Array Sample) : List Sample :=
  (left.zip right).toList.flatMap fun (l, r) ↦ [l, r]

theorem length_interleave {left right : Array Sample} (h : left.size = right.size) :
    (interleave left right).length = 2 * left.size := by
  rw [interleave, List.length_flatMap]
  simp [h, List.map_const', Nat.mul_comm]

theorem toList_encode (spec : StereoSpec) (left right : Array Sample) :
    (encode spec left right).toList = header spec (2 * (spec.bits / 8) * left.size)
      ++ (interleave left right).flatMap (encodeSample spec.bits) := by
  have hfold : ∀ (frames : List (Sample × Sample)) (out : Array UInt8),
      (frames.foldl (fun out (l, r) ↦ out ++ encodeSample spec.bits l ++ encodeSample spec.bits r)
          out).toList
        = out.toList ++ (frames.flatMap fun (l, r) ↦ [l, r]).flatMap (encodeSample spec.bits) := by
    intro frames
    induction frames with
    | nil => simp
    | cons frame frames ih =>
      intro out
      rw [List.foldl_cons, ih]
      simp
  rw [encode, ← Array.foldl_toList, hfold, interleave]

/-- Behind a header that is read, a file is read sample by sample. -/
theorem decode_encode_of_header {spec : StereoSpec} {format : Format} {value : Sample → Float}
    {left right : Array Sample} {size : Nat} (hsize : left.size = right.size)
    (hcount : 2 * (spec.bits / 8) * left.size = size)
    (hheader : ∀ rest, readFile.header (header spec size ++ rest) = .ok (format, size, rest))
    (hbytes : format.bytes = spec.bits / 8) (hpos : 0 < spec.bits / 8)
    (hsample : ∀ s, Reads (readSample format) (encodeSample spec.bits s) (value s)) :
    decode (encode spec left right).toList
      = .ok ⟨format, ((interleave left right).map value).toArray⟩ := by
  have hlength : size / format.bytes = (interleave left right).length := by
    rw [length_interleave hsize, hbytes, ← hcount, Nat.mul_right_comm, Nat.mul_div_cancel _ hpos]
  have hsamples := reads_samples hsample (interleave left right) #[] []
  rw [List.append_nil] at hsamples
  rw [decode, readFile, toList_encode, hcount, hheader]
  change (Except.bind (readSamples format #[] (size / format.bytes) _) _).map _ = _
  rw [hlength, hsamples, Array.empty_append]
  rfl

/-- A stereo file is read as it was written, if the bytes of a second are writable. -/
theorem decode_encode {rate : Nat} {left right : Array Sample} (hsize : left.size = right.size)
    (hdata : 8 * left.size < 2 ^ 32) : decode (encode ⟨rate, 32⟩ left right).toList =
      if 8 * (rate % 256 ^ 4) < 256 ^ 4 then
        .ok ⟨stereo (rate % 256 ^ 4), ((interleave left right).map Sample.toDouble).toArray⟩
      else .error (.illFormed .inconsistentRates) := by
  have hcount : 2 * ((⟨rate, 32⟩ : StereoSpec).bits / 8) * left.size = 8 * left.size := by simp
  have hheader : ∀ rest, readFile.header (header ⟨rate, 32⟩ (8 * left.size) ++ rest) = _ :=
    header_stereo (by omega) (by omega)
  by_cases h : 8 * (rate % 256 ^ 4) < 256 ^ 4
  · simp only [if_pos h] at hheader ⊢
    exact decode_encode_of_header hsize hcount hheader (show 4 = 32 / 8 by decide)
      (show 0 < 32 / 8 by decide) (reads_sample (rate % 256 ^ 4))
  · simp only [if_neg h] at hheader ⊢
    rw [decode, readFile, toList_encode, hcount, hheader]
    rfl

end StackSynth.WaveFile
