import RecordSchema.Proofs.Catalogue.RoundTrip
import RecordSchema.Proofs.Zstd.Reading
import RecordSchema.Zstd

/-! Files that start as a frame does. Their decoder is read up to one byte past the limit, and that byte
tells too much from just enough: if it is not reached, the decoder was read to its end or its fault
(`inflate_exact`). -/

namespace RecordSchema.Catalogue

/-- The file opens with the bytes that frames start with. -/
def IsFrame (raw : ByteArray) : Prop := Zstd.magic <+: raw.toList

instance : DecidablePred IsFrame := fun raw =>
  inferInstanceAs (Decidable (Zstd.magic <+: raw.toList))

theorem extract_eq_magic_iff {raw : ByteArray} :
    (raw.extract 0 4).toList = Zstd.magic ↔ IsFrame raw := by
  have htake : (raw.extract 0 4).toList = raw.toList.take 4 := by
    simp [Text.toList_bytes, ByteArray.data_extract]
  rw [htake, IsFrame, List.prefix_iff_eq_take]
  exact eq_comm

theorem toNat_add_one {limit : UInt64} (h : limit.toNat < UInt64.size - 1) :
    (limit + 1).toNat = limit.toNat + 1 := by
  rw [UInt64.toNat_add]
  exact Nat.mod_eq_of_lt (Nat.add_lt_of_lt_sub h)

/-- What comes of a frame, told by the bytes that the decoder yields and by how it ends. -/
inductive Inflated (limit : Nat) (yielded : Zstd.Yield) :
    Except Error (Compression × ByteArray) → Prop
  | tooLarge : limit < yielded.toList.length →
      Inflated limit yielded (.error (.decompressedTooLarge limit))
  | faulty : yielded.toList.length ≤ limit → yielded.isComplete = false →
      Inflated limit yielded (.error .io)
  | whole {bytes : ByteArray} : yielded.toList.length ≤ limit → yielded.isComplete = true →
      bytes.toList = yielded.toList → Inflated limit yielded (.ok (.zstd, bytes))

variable {decode : Decoder} {read : Json.TextReader (List String)} {limit : UInt64}
  {raw : ByteArray}

theorem inflateBy_of_not_isFrame (h : ¬IsFrame raw) :
    inflateBy decode limit raw = .ok (.none, raw) := by
  rw [inflateBy, if_pos (mt extract_eq_magic_iff.mp h)]

theorem inflateBy_of_isFrame (h : IsFrame raw) :
    inflateBy decode limit raw =
      ((Zstd.Limited.mk (decode raw.toList) (limit + 1).toNat).readToEnd >>= fun chunks =>
        if limit.toNat < Zstd.Chunk.totalSize chunks then
          .error (.decompressedTooLarge limit.toNat)
        else .ok (.zstd, Zstd.Chunk.join chunks)) := by
  rw [inflateBy, if_neg (not_not_intro (extract_eq_magic_iff.mpr h))]
  rfl

theorem inflateBy_inflated (hlimit : limit.toNat < UInt64.size - 1) (h : IsFrame raw) :
    Inflated limit.toNat (decode raw.toList) (inflateBy decode limit raw) := by
  have hreads :=
    (Zstd.Limited.mk (decode raw.toList) (limit + 1).toNat).readToEnd_reads
  rw [inflateBy_of_isFrame h]
  rw [toNat_add_one hlimit] at hreads ⊢
  generalize (Zstd.Limited.mk (decode raw.toList) (limit.toNat + 1)).readToEnd = result at hreads
  cases hreads with
  | @cut chunks hle hchunks =>
      have hsize : limit.toNat < Zstd.Chunk.totalSize chunks := by
        rw [Zstd.Chunk.totalSize_eq, hchunks, List.length_take_of_le hle]
        exact Nat.lt_succ_self _
      rw [ok_bind, if_pos hsize]
      exact .tooLarge hle
  | @whole chunks hlt hcomplete hchunks =>
      have hsize : ¬limit.toNat < Zstd.Chunk.totalSize chunks := by
        rw [Zstd.Chunk.totalSize_eq, hchunks]
        exact Nat.not_lt_of_le (Nat.le_of_lt_succ hlt)
      rw [ok_bind, if_neg hsize]
      exact .whole (Nat.le_of_lt_succ hlt) hcomplete
        ((Zstd.Chunk.toList_join _).trans hchunks)
  | fault hlt hcomplete => exact .faulty (Nat.le_of_lt_succ hlt) hcomplete

/-- The bound is exact: each of the three results stands for one case of what the decoder yields. -/
structure ExactBound (limit : Nat) (yielded : Zstd.Yield)
    (result : Except Error (Compression × ByteArray)) : Prop where
  tooLarge : result = .error (.decompressedTooLarge limit) ↔ limit < yielded.toList.length
  faulty : result = .error .io ↔
    yielded.toList.length ≤ limit ∧ yielded.isComplete = false
  whole : ∀ bytes, result = .ok (.zstd, bytes) ↔
    yielded.toList.length ≤ limit ∧ yielded.isComplete = true ∧ bytes.toList = yielded.toList

theorem Inflated.exactBound {limit : Nat} {yielded : Zstd.Yield}
    {result : Except Error (Compression × ByteArray)} (h : Inflated limit yielded result) :
    ExactBound limit yielded result := by
  cases h with
  | tooLarge hlt =>
      refine ⟨iff_of_true rfl hlt, iff_of_false nofun ?_, fun bytes => iff_of_false nofun ?_⟩
      · exact fun hle => Nat.not_le_of_lt hlt hle.1
      · exact fun hle => Nat.not_le_of_lt hlt hle.1
  | faulty hle hcomplete =>
      refine ⟨iff_of_false nofun (Nat.not_lt_of_le hle), iff_of_true rfl ⟨hle, hcomplete⟩,
        fun bytes => iff_of_false nofun ?_⟩
      rintro ⟨-, hc, -⟩
      cases hcomplete.symm.trans hc
  | @whole inflated hle hcomplete hbytes =>
      refine ⟨iff_of_false nofun (Nat.not_lt_of_le hle), iff_of_false nofun ?_, fun bytes => ?_⟩
      · rintro ⟨-, hc⟩
        cases hcomplete.symm.trans hc
      · constructor
        · intro h
          obtain ⟨-, rfl⟩ := Prod.mk.inj (Except.ok.inj h)
          exact ⟨hle, hcomplete, hbytes⟩
        · rintro ⟨-, -, h⟩
          rw [Text.toList_inj (hbytes.trans h.symm)]

theorem ofFileBy_of_inflateBy {compression : Compression} {bytes : ByteArray}
    (h : inflateBy decode maxSize raw = .ok (compression, bytes)) :
    ofFileBy decode read (some raw) =
      (fun catalogue => { catalogue with compression }) <$> ofBytesBy read bytes := by
  simp only [ofFileBy, h, ok_bind]
  cases ofBytesBy read bytes <;> rfl

/-- A frame whose decoder comes to the end within the limit is opened as the bytes it yields. -/
theorem ofFileBy_of_isFrame {bytes : ByteArray} (h : IsFrame raw)
    (hcomplete : (decode raw.toList).isComplete = true)
    (hbytes : (decode raw.toList).toList = bytes.toList) (hsize : bytes.size ≤ 64 * 1024 * 1024) :
    ofFileBy decode read (some raw) =
      (fun catalogue => { catalogue with compression := .zstd }) <$> ofBytesBy read bytes := by
  have hlimit : maxSize.toNat < UInt64.size - 1 := by decide
  have hbound : ExactBound maxSize.toNat (decode raw.toList) (inflateBy decode maxSize raw) :=
    (inflateBy_inflated hlimit h).exactBound
  have hle : (decode raw.toList).toList.length ≤ maxSize.toNat := by
    rw [hbytes, Text.length_bytes]
    exact hsize
  exact ofFileBy_of_inflateBy ((hbound.whole bytes).mpr ⟨hle, hcomplete, hbytes.symm⟩)

/-- Whatever is no frame is left as it is, and what a frame is inflated to tells how much its decoder
yields and how it ends, to the byte. So a file within the limit is opened whole. -/
theorem inflate_exact (decode : Decoder) (limit : UInt64) (hlimit : limit.toNat < UInt64.size - 1)
    (raw : ByteArray) :
    (¬IsFrame raw → inflateBy decode limit raw = .ok (.none, raw)) ∧
    (IsFrame raw → ExactBound limit.toNat (decode raw.toList) (inflateBy decode limit raw)) ∧
    ∀ (read : Json.TextReader (List String)) (bytes : ByteArray), IsFrame raw →
      (decode raw.toList).isComplete = true → (decode raw.toList).toList = bytes.toList →
      bytes.size ≤ 64 * 1024 * 1024 →
      ofFileBy decode read (some raw) =
        (fun catalogue => { catalogue with compression := .zstd }) <$> ofBytesBy read bytes := by
  refine ⟨inflateBy_of_not_isFrame, fun h => (inflateBy_inflated hlimit h).exactBound, ?_⟩
  intro read bytes h hcomplete hbytes hsize
  exact ofFileBy_of_isFrame h hcomplete hbytes hsize

def structText : String := "struct A \x7b\x7d;\n"

/-- The text in a stored block, a run of one byte and another stored block. -/
def structFrame : ByteArray :=
  ⟨#[0x28, 0xb5, 0x2f, 0xfd, 0x20, 0x0d, 0x50, 0x00, 0x00,
    0x73, 0x74, 0x72, 0x75, 0x63, 0x74, 0x20, 0x41, 0x20, 0x7b,
    0x0a, 0x00, 0x00, 0x7d, 0x11, 0x00, 0x00, 0x3b, 0x0a]⟩

theorem readFrames_structFrame : Zstd.readFrames structFrame.toList =
    ⟨[.stored [0x73, 0x74, 0x72, 0x75, 0x63, 0x74, 0x20, 0x41, 0x20, 0x7b], .run 1 0x7d,
      .stored [0x3b, 0x0a]], true⟩ := by
  decide +kernel

theorem toList_structFrame :
    (Zstd.readFrames structFrame.toList).toList = structText.toUTF8.toList := by
  rw [readFrames_structFrame]
  decide +kernel

theorem parse_structText : parse structText = .ofEntries ["struct A \x7b\x7d;"] := by
  have hrow : IsRow "struct A \x7b\x7d;" := IsInline.isRow (c := ';') (by decide) (by decide) rfl
  have hparagraph : Paragraph ["struct A \x7b\x7d;"] :=
    .rows hrow (continues_eq _) (List.forall_mem_nil _)
  have hjoin : String.join (["struct A \x7b\x7d;"].map (· ++ "\n")) = structText := by decide
  rw [← hjoin]
  exact (Arranged.entry hparagraph .nil).parse (.inl rfl)

/-- The limit is just met, and just missed. -/
theorem inflate_exact_structFrame :
    (13 : UInt64).toNat < UInt64.size - 1 ∧ (12 : UInt64).toNat < UInt64.size - 1 ∧
    IsFrame structFrame ∧
    inflateBy Zstd.readFrames 13 structFrame = .ok (.zstd, structText.toUTF8) ∧
    inflateBy Zstd.readFrames 12 structFrame = .error (.decompressedTooLarge 12) ∧
    ofFileBy Zstd.readFrames Json.parseStrings (some structFrame) =
      .ok ⟨["struct A \x7b\x7d;"], .zstd⟩ := by
  have hframe : IsFrame structFrame := by decide +kernel
  have hcomplete : (Zstd.readFrames structFrame.toList).isComplete = true := by
    rw [readFrames_structFrame]
  have hlength : (Zstd.readFrames structFrame.toList).toList.length = 13 := by
    rw [readFrames_structFrame]
    rfl
  have hsize : structText.toUTF8.size = 13 := by decide +kernel
  obtain ⟨-, hmet, hfile⟩ := inflate_exact Zstd.readFrames 13 (by decide) structFrame
  obtain ⟨-, hmissed, -⟩ := inflate_exact Zstd.readFrames 12 (by decide) structFrame
  refine ⟨by decide, by decide, hframe, ?_, ?_, ?_⟩
  · exact ((hmet hframe).whole _).mpr ⟨Nat.le_of_eq hlength, hcomplete, toList_structFrame.symm⟩
  · exact (hmissed hframe).tooLarge.mpr (hlength ▸ by decide)
  · have hopened :=
      hfile Json.parseStrings _ hframe hcomplete toList_structFrame (hsize ▸ by decide)
    rw [ofBytesBy_text (by decide), parse_structText] at hopened
    exact hopened

end RecordSchema.Catalogue
