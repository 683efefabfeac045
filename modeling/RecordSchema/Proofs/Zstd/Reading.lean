import RecordSchema.Proofs.Outcome
import RecordSchema.Proofs.Text.Bytes
import RecordSchema.Zstd.Reading

/-! What is read of a decoder. One read gives some of the bytes that come next, and the reads up to
an allowance give all of them if the decoder ends before it, or else those within it
(`readToEnd_reads`). How the decoder parts its bytes does not matter, nor how it ends once the
allowance is used up. -/

namespace RecordSchema.Zstd

namespace Chunk

theorem length_toList (chunk : Chunk) : chunk.toList.length = chunk.size := by
  cases chunk with
  | stored bytes => rfl
  | run count byte => exact List.length_replicate

theorem toList_eq_nil_iff {chunk : Chunk} : chunk.toList = [] ↔ chunk.size = 0 := by
  rw [← length_toList, List.length_eq_zero_iff]

theorem toList_take (chunk : Chunk) (count : Nat) :
    (chunk.take count).toList = chunk.toList.take count := by
  cases chunk with
  | stored bytes => rfl
  | run total byte => exact List.take_replicate.symm

theorem toList_drop (chunk : Chunk) (count : Nat) :
    (chunk.drop count).toList = chunk.toList.drop count := by
  cases chunk with
  | stored bytes => rfl
  | run total byte => exact List.drop_replicate.symm

theorem totalSize_eq (chunks : List Chunk) :
    totalSize chunks = (chunks.flatMap toList).length := by
  induction chunks with
  | nil => rfl
  | cons chunk chunks ih =>
      rw [List.flatMap_cons, List.length_append, length_toList, ← ih]
      rfl

theorem toList_pushTo (chunk : Chunk) (out : ByteArray) :
    (chunk.pushTo out).toList = out.toList ++ chunk.toList := by
  cases chunk with
  | stored bytes => exact Text.toList_foldl_push bytes out
  | run count byte =>
      show (Nat.repeat (fun out => out.push byte) count out).toList = _
      induction count with
      | zero => exact (List.append_nil _).symm
      | succ count ih =>
          rw [Nat.repeat, Text.toList_push, ih, toList, toList, List.replicate_succ',
            List.append_assoc]

theorem toList_join (chunks : List Chunk) : (join chunks).toList = chunks.flatMap toList := by
  suffices ∀ out : ByteArray,
      (chunks.foldl pushTo out).toList = out.toList ++ chunks.flatMap toList by
    rw [join, this, Text.toList_empty, List.nil_append]
  induction chunks with
  | nil => simp
  | cons chunk chunks ih =>
      intro out
      rw [List.foldl_cons, ih, toList_pushTo, List.flatMap_cons, List.append_assoc]

/-- Chunks without bytes add nothing. -/
theorem flatMap_dropWhile (chunks : List Chunk) :
    (chunks.dropWhile (·.size == 0)).flatMap toList = chunks.flatMap toList := by
  induction chunks with
  | nil => rfl
  | cons chunk chunks ih =>
      rw [List.dropWhile_cons]
      split
      · rename_i hsize
        rw [ih, List.flatMap_cons, toList_eq_nil_iff.mpr (beq_iff_eq.mp hsize), List.nil_append]
      · rfl

end Chunk

/-- What one read of at most `room` bytes may come to. -/
inductive ReadStep (room : Nat) (yielded : Yield) : Except Error (Option (Chunk × Yield)) → Prop
  | ended : yielded.toList = [] → yielded.isComplete = true → ReadStep room yielded (.ok none)
  | fault : yielded.toList = [] → yielded.isComplete = false → ReadStep room yielded (.error .io)
  | piece {chunk : Chunk} {rest : Yield} : yielded.toList = chunk.toList ++ rest.toList →
      rest.isComplete = yielded.isComplete → chunk.size ≤ room →
      ReadStep room yielded (.ok (some (chunk, rest)))

theorem Yield.read_step (yielded : Yield) (room : Nat) :
    ReadStep room yielded (yielded.read room) := by
  have hbytes := Chunk.flatMap_dropWhile yielded.chunks
  unfold read
  split
  · rename_i hchunks
    rw [hchunks] at hbytes
    cases hcomplete : yielded.isComplete with
    | true => exact .ended hbytes.symm hcomplete
    | false => exact .fault hbytes.symm hcomplete
  · rename_i chunk rest hchunks
    refine .piece ?_ rfl ?_
    · rw [toList, ← hbytes, hchunks, toList, List.flatMap_cons, List.flatMap_cons, Chunk.toList_take,
        Chunk.toList_drop, ← List.append_assoc, List.take_append_drop]
    · rw [← Chunk.length_toList, Chunk.toList_take]
      exact List.length_take_le _ _

namespace Limited

/-- What a read within the allowance may come to. -/
inductive Step (limited : Limited) : Except Error (Option (Chunk × Limited)) → Prop
  | used : limited.allowance = 0 → Step limited (.ok none)
  | ended : limited.allowance ≠ 0 → limited.source.toList = [] →
      limited.source.isComplete = true → Step limited (.ok none)
  | fault : limited.allowance ≠ 0 → limited.source.toList = [] →
      limited.source.isComplete = false → Step limited (.error .io)
  | piece {chunk : Chunk} {rest : Limited} :
      limited.allowance = chunk.toList.length + rest.allowance →
      limited.source.toList = chunk.toList ++ rest.source.toList →
      rest.source.isComplete = limited.source.isComplete →
      Step limited (.ok (some (chunk, rest)))

theorem read_step (limited : Limited) : Step limited limited.read := by
  unfold read
  split
  · rename_i hallowance
    exact .used hallowance
  · rename_i hallowance
    have hstep := limited.source.read_step limited.allowance
    generalize limited.source.read limited.allowance = result at hstep
    cases hstep with
    | ended hbytes hcomplete => exact .ended hallowance hbytes hcomplete
    | fault hbytes hcomplete => exact .fault hallowance hbytes hcomplete
    | piece hbytes hcomplete hsize =>
        refine .piece ?_ hbytes hcomplete
        rw [Chunk.length_toList, Nat.add_sub_cancel' hsize]

/-- What reading to the end comes to. A fault is met only within the allowance, and so is an end. -/
inductive Reads (limited : Limited) : Except Error (List Chunk) → Prop
  | cut {chunks : List Chunk} : limited.allowance ≤ limited.source.toList.length →
      chunks.flatMap Chunk.toList = limited.source.toList.take limited.allowance →
      Reads limited (.ok chunks)
  | whole {chunks : List Chunk} : limited.source.toList.length < limited.allowance →
      limited.source.isComplete = true →
      chunks.flatMap Chunk.toList = limited.source.toList → Reads limited (.ok chunks)
  | fault : limited.source.toList.length < limited.allowance →
      limited.source.isComplete = false → Reads limited (.error .io)

/-- A piece in front of what the further reads come to. -/
theorem Reads.cons {limited rest : Limited} {chunk : Chunk} {result : Except Error (List Chunk)}
    (h : Reads rest result) (hallowance : limited.allowance = chunk.toList.length + rest.allowance)
    (hbytes : limited.source.toList = chunk.toList ++ rest.source.toList)
    (hcomplete : rest.source.isComplete = limited.source.isComplete) :
    Reads limited (result >>= fun chunks => .ok (chunk :: chunks)) := by
  have hlength : limited.source.toList.length =
      chunk.toList.length + rest.source.toList.length := by
    rw [hbytes, List.length_append]
  cases h with
  | cut hle hchunks =>
      refine .cut (by omega) ?_
      rw [List.flatMap_cons, hchunks, hbytes, hallowance, List.take_length_add_append]
  | whole hlt hc hchunks =>
      refine .whole (by omega) (hcomplete ▸ hc) ?_
      rw [List.flatMap_cons, hchunks, hbytes]
  | fault hlt hc => exact .fault (by omega) (hcomplete ▸ hc)

theorem readToEnd_reads (limited : Limited) : Reads limited limited.readToEnd := by
  fun_induction readToEnd limited with
  | case1 limited e hread =>
      have hstep := hread ▸ limited.read_step
      cases hstep with
      | fault hallowance hbytes hcomplete =>
          refine .fault ?_ hcomplete
          rw [hbytes]
          exact Nat.pos_of_ne_zero hallowance
  | case2 limited hread =>
      have hstep := hread ▸ limited.read_step
      cases hstep with
      | used hallowance =>
          refine .cut (hallowance ▸ Nat.zero_le _) ?_
          rw [hallowance]
          rfl
      | ended hallowance hbytes hcomplete =>
          refine .whole ?_ hcomplete hbytes.symm
          rw [hbytes]
          exact Nat.pos_of_ne_zero hallowance
  | case3 limited chunk rest hread ih =>
      have hstep := hread ▸ limited.read_step
      cases hstep with
      | piece hallowance hbytes hcomplete => exact ih.cons hallowance hbytes hcomplete

end Limited

end RecordSchema.Zstd
