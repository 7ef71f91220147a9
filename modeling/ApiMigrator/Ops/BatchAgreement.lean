import ApiMigrator.Ops.BatchResult
import Mathlib.Data.List.Perm.Basic

/-!
The encoder in the guest and the classifier of the operator agree: the lines of a log, in any order
and among others, are accepted and tell what the encoder told, and a log that passes consists of the
encoder's chunks.
-/

set_option autoImplicit false
set_option relaxedAutoImplicit false

namespace ApiMigrator.Ops.BatchAgreement

open Foundation Foundation.Text Foundation.Number Foundation.Json Foundation.Outcome
open Foundation.Pattern Foundation.Binary Foundation.Regex Foundation.Base64 Lib BatchLog
open BatchResult
open TrialCleanup (field object text elements hasOwn isUndefined isTrue isPlain project DateParser)

/-! ### Cutting and joining -/

section Cutting

variable {α : Type}

/-- Pieces of one length, cut off one after the other, make up the beginning of a list. -/
theorem flatMap_pieces (k : ℕ) (l : List α) (n : ℕ) :
    ((List.range n).flatMap fun i ↦ (l.drop (k * i)).take k) = l.take (k * n) := by
  induction n with
  | zero => simp
  | succ n ih =>
    rw [List.range_succ, List.flatMap_append, ih, List.flatMap_singleton, Nat.mul_succ,
      List.take_add]

theorem flatMap_chunk (bytes : Bytes) :
    (List.range (chunkCount bytes)).flatMap (chunk bytes) = bytes := by
  refine (flatMap_pieces 3072 bytes (chunkCount bytes)).trans (List.take_of_length_le ?_)
  rw [chunkCount]
  omega

/-- The pieces of a list that is joined from full pieces and a last one are these. -/
theorem pieces_of_join {k : ℕ} (hk : 0 < k) (bs : List (List α))
    (hlengths : ∀ b ∈ bs, 0 < b.length ∧ b.length ≤ k)
    (hfull : ∀ i (hi : i < bs.length), i + 1 = bs.length ∨ (bs.get ⟨i, hi⟩).length = k) :
    bs.length = (bs.flatten.length + (k - 1)) / k ∧
      ∀ i (hi : i < bs.length), bs.get ⟨i, hi⟩ = (bs.flatten.drop (k * i)).take k := by
  induction bs with
  | nil =>
    exact ⟨(Nat.div_eq_of_lt (by simp; omega)).symm, fun i hi ↦ absurd hi (Nat.not_lt_zero i)⟩
  | cons b bs ih =>
    obtain ⟨⟨hpos, hle⟩, hlengths⟩ := List.forall_mem_cons.mp hlengths
    cases bs with
    | nil =>
      simp only [List.flatten_cons, List.flatten_nil, List.append_nil, List.length_singleton]
      refine ⟨?_, fun i hi ↦ ?_⟩
      · have hone : (b.length + (k - 1)) / k = 1 := by
          rw [Nat.div_eq_iff hk]
          omega
        exact hone.symm
      · obtain rfl : i = 0 := by omega
        rw [Nat.mul_zero, List.drop_zero, List.take_of_length_le hle]
        rfl
    | cons c bs =>
      have hb : b.length = k := by
        have hfirst := hfull 0 (by simp)
        simpa using hfirst
      obtain ⟨hcount, hget⟩ := ih hlengths fun i hi ↦ by
        have hnext := hfull (i + 1) (by simpa using hi)
        simpa using hnext
      refine ⟨?_, fun i hi ↦ ?_⟩
      · rw [List.length_cons, hcount, List.flatten_cons (l := b), List.length_append, hb,
          Nat.add_assoc, Nat.add_div_left _ hk]
      · cases i with
        | zero =>
          rw [Nat.mul_zero, List.drop_zero, List.flatten_cons, ← hb, List.take_left]
          rfl
        | succ i =>
          have hi' : i < (c :: bs).length := by simpa using hi
          have htail : ((b :: c :: bs).flatten).drop (k * (i + 1)) =
              ((c :: bs).flatten).drop (k * i) := by
            rw [List.flatten_cons, Nat.mul_succ, Nat.add_comm, ← List.drop_drop, ← hb,
              List.drop_left]
          rw [htail, ← hget i hi']
          rfl

end Cutting

/-! ### Reading the encoder's lines -/

variable {H : HashFunction 32} {dateParse : DateParser} {p : Prepared} {bytes : Bytes}
  {context : Context}

/-- The context is that of the prepared run. -/
structure Matches (p : Prepared) (context : Context) : Prop where
  runId : context.runId = p.runId
  revision : context.sourceRevision = p.revision
  archive : context.sourceArchiveSha256 = p.archive

/-- The line begins with neither marker. -/
def IsNoise (line : JsString) : Prop :=
  startsWith line logMarker = false ∧ startsWith line resultMarker = false

instance (line : JsString) : Decidable (IsNoise line) := inferInstanceAs (Decidable (_ ∧ _))

private theorem startsWith_marked (marker : String) (rest : JsString) :
    startsWith (js marker ++ js " " ++ rest) marker = true := by
  rw [startsWith, List.append_assoc]
  exact List.isPrefixOf_iff_prefix.mpr (List.prefix_append _ _)

private theorem markedRecord_marked (marker : String) {record : JsValue} (hrecord : Plain record) :
    markedRecord marker (js marker ++ js " " ++ compactText record) = .ok record := by
  have hbegins : (js marker ++ js " ").isPrefixOf (js marker ++ js " " ++ compactText record) =
      true := List.isPrefixOf_iff_prefix.mpr (List.prefix_append _ _)
  rw [markedRecord, reject, if_neg (by rw [hbegins]; decide), ok_bind, List.drop_left,
    hrecord.jsonParse_compactText]
  rfl

private theorem plain_chunkRecord (runId : JsString) {index : ℕ} (hindex : index < 1366)
    (data : Bytes) : Plain (chunkRecord runId index data) := by
  have hkeys : [js "runId", js "index", js "data"].Nodup := by
    decide
  refine .obj hkeys ?_
  simp only [List.forall_mem_cons, List.not_mem_nil, false_implies, implies_true, and_true]
  refine ⟨.str _, .num ?_, .str _⟩
  rw [isSafe, decide_eq_true_iff, maxSafeInteger]
  omega

private theorem isSafe_of_bounds {i : ℤ} (hlow : 0 ≤ i) (hhigh : i ≤ 4194304) :
    isSafe i = true := by
  rw [isSafe, decide_eq_true_iff, maxSafeInteger]
  omega

private theorem chunkCount_le (hbytes : bytes.length ≤ 4194304) : chunkCount bytes ≤ 1366 := by
  rw [chunkCount]
  omega

private theorem plain_resultRecord (hbytes : bytes.length ≤ 4194304)
    (hexit : 0 ≤ context.exitCode ∧ context.exitCode ≤ 255) :
    Plain (resultRecord H bytes context) := by
  have hcount := chunkCount_le hbytes
  have hkeys : (resultKeys.map js).Nodup := by
    decide +kernel
  refine .obj hkeys ?_
  simp only [List.forall_mem_cons, List.not_mem_nil, false_implies, implies_true, and_true]
  refine ⟨.num (by decide), .str _, .str _, .str _, .str _, .str _, .num ?_, .str _, .num ?_,
    .num ?_, .str _, .bool _⟩
  · exact isSafe_of_bounds hexit.1 (by omega)
  · exact isSafe_of_bounds (by omega) (by omega)
  · exact isSafe_of_bounds (by omega) (by omega)

private theorem integer_num {i : ℤ} (hi : isSafe i = true) : integer (.num (.int i)) = some i := by
  rw [integer, safeInteger, if_pos hi]

theorem readRecord_noise {line : JsString} (hline : IsNoise line) (lines : Lines) :
    readRecord p lines line = .ok lines := by
  rw [readRecord, hline.1, hline.2]
  rfl

theorem chunk_bounds {i : ℕ} (hi : i < chunkCount bytes) :
    0 < (chunk bytes i).length ∧ (chunk bytes i).length ≤ 3072 := by
  rw [chunkCount] at hi
  rw [chunk, List.length_take, List.length_drop]
  omega

private theorem readChunk_chunkRecord {lines : Lines} {i : ℕ} {data : Bytes} (hi : i < 1366)
    (hdata : 0 < data.length ∧ data.length ≤ 3072) (hnew : i ∉ lines.chunks.map Prod.fst) :
    readChunk p lines (chunkRecord p.runId i data) =
      .ok { lines with chunks := lines.chunks ++ [(i, data)] } := by
  have hexact : exact (chunkRecord p.runId i data) ["runId", "index", "data"] = true := by
    rfl
  have hrun : text (field (chunkRecord p.runId i data) "runId") = some p.runId := by
    rfl
  have hindex : integer (field (chunkRecord p.runId i data) "index") = some (i : ℤ) :=
    integer_num (isSafe_of_bounds (by omega) (by omega))
  have htext : text (field (chunkRecord p.runId i data) "data") = some (base64 data) := by
    rfl
  have hlength : (base64 data).length ≤ 4096 := by
    rw [length_base64]
    omega
  have hne : data ≠ [] := List.ne_nil_of_length_pos hdata.1
  simp only [readChunk, bind_eq_ok, reject_eq_ok, orThrow_eq_ok, exists_unit, pure_eq_ok]
  refine ⟨?_, i, ?_, hnew, base64 data, ?_, ?_, ?_⟩
  · rw [hexact, hrun]
    simp
  · have hbounds : 0 ≤ (i : ℤ) ∧ (i : ℤ) < 1366 := by
      omega
    simp only [hindex, Option.filter_some, decide_eq_true hbounds, if_true]
  · simp only [htext, Option.filter_some, decide_eq_true hlength, if_true]
  · rw [base64Decode_base64]
    simp [hne, hdata.2]
  · rw [base64Decode_base64]
    rfl

theorem readRecord_chunkLine {lines : Lines} {i : ℕ} {data : Bytes} (hi : i < 1366)
    (hdata : 0 < data.length ∧ data.length ≤ 3072) (hnew : i ∉ lines.chunks.map Prod.fst) :
    readRecord p lines (chunkLine p.runId i data) =
      .ok { lines with chunks := lines.chunks ++ [(i, data)] } := by
  rw [readRecord, chunkLine, startsWith_marked, if_pos rfl,
    markedRecord_marked logMarker (plain_chunkRecord p.runId hi data), ok_bind]
  exact readChunk_chunkRecord hi hdata hnew

/-- What the classifier keeps of the encoder's last line. -/
def batchRecord (H : HashFunction 32) (bytes : Bytes) (context : Context) : BatchRecord :=
  ⟨context.phase, context.exitCode, passed bytes context, bytes.length, chunkCount bytes,
    H.hex bytes⟩

private theorem readResult_resultRecord (hmatches : Matches p context)
    (hbytes : bytes.length ≤ 4194304) (hexit : 0 ≤ context.exitCode ∧ context.exitCode ≤ 255)
    {lines : Lines} (hnew : lines.result = none) :
    readResult p lines (resultRecord H bytes context) =
      .ok { lines with result := some (batchRecord H bytes context) } := by
  have hcount := chunkCount_le hbytes
  have hexact : exact (resultRecord H bytes context) resultKeys = true := by
    rfl
  have hexitCode : integer (field (resultRecord H bytes context) "exitCode") =
      some context.exitCode := integer_num (isSafe_of_bounds hexit.1 (by omega))
  have hlogBytes : integer (field (resultRecord H bytes context) "logBytes") =
      some (bytes.length : ℤ) := integer_num (isSafe_of_bounds (by omega) (by omega))
  have hlogChunks : integer (field (resultRecord H bytes context) "logChunks") =
      some (chunkCount bytes : ℤ) := integer_num (isSafe_of_bounds (by omega) (by omega))
  have hstatus : field (resultRecord H bytes context) "status" =
      .str (if passed bytes context then js "passed" else js "failed") := by
    rfl
  have hpassed : isPlain (field (resultRecord H bytes context) "status") "passed" =
      passed bytes context := by
    rw [hstatus]
    cases passed bytes context <;> decide
  have hfailed : isPlain (field (resultRecord H bytes context) "status") "failed" =
      !passed bytes context := by
    rw [hstatus]
    cases passed bytes context <;> decide
  simp only [readResult, bind_eq_ok, reject_eq_ok, orThrow_eq_ok, exists_unit, pure_eq_ok]
  refine ⟨?_, context.phase, rfl, context.exitCode, ?_, ?_, (bytes.length : ℤ), ?_,
    (chunkCount bytes : ℤ), ?_, H.hex bytes, ?_, ?_⟩
  · simp only [not_or]
    refine ⟨by rw [hnew]; decide, by rw [hexact]; decide, ?_, ?_, ?_, ?_, ?_, ?_⟩
    · exact not_not.mpr (integer_num (by decide))
    · rw [Bool.not_eq_false]
      rfl
    · rw [not_not, ← hmatches.runId]
      rfl
    · rw [not_not, ← hmatches.revision]
      rfl
    · rw [not_not, ← hmatches.archive]
      rfl
    · rw [Bool.not_eq_false]
      rfl
  · simp only [hexitCode, Option.filter_some, decide_eq_true hexit, if_true]
  · rw [hpassed, hfailed]
    cases passed bytes context <;> decide
  · have hbounds : 0 ≤ (bytes.length : ℤ) ∧ (bytes.length : ℤ) ≤ 4194304 := by
      omega
    simp only [hlogBytes, Option.filter_some, decide_eq_true hbounds, if_true]
  · have hbounds : 0 ≤ (chunkCount bytes : ℤ) ∧ (chunkCount bytes : ℤ) ≤ 1366 := by
      omega
    simp only [hlogChunks, Option.filter_some, decide_eq_true hbounds, if_true]
  · exact if_pos (H.isHexOfLength_hex bytes)
  · rw [hpassed]
    rfl

private theorem logMarker_resultLine :
    startsWith (resultLine H bytes context) logMarker = false := by
  have hhead : resultLine H bytes context = js "API_MIGRATOR_BATCH_R" ++
      (js "ESULT" ++ js " " ++ compactText (resultRecord H bytes context)) := by
    rfl
  rw [hhead]
  rfl

theorem readRecord_resultLine (hmatches : Matches p context) (hbytes : bytes.length ≤ 4194304)
    (hexit : 0 ≤ context.exitCode ∧ context.exitCode ≤ 255) {lines : Lines}
    (hnew : lines.result = none) :
    readRecord p lines (resultLine H bytes context) =
      .ok { lines with result := some (batchRecord H bytes context) } := by
  rw [readRecord, logMarker_resultLine, if_neg Bool.false_ne_true, resultLine, startsWith_marked,
    if_pos rfl, markedRecord_marked resultMarker (plain_resultRecord hbytes hexit), ok_bind]
  exact readResult_resultRecord hmatches hbytes hexit hnew

/-! ### The lines in any order -/

/-- A line of the log: one of the encoder's, or another. -/
inductive Piece
  | chunk (index : ℕ)
  | result
  | noise (line : JsString)
  deriving DecidableEq

def Piece.line (H : HashFunction 32) (bytes : Bytes) (context : Context) : Piece → JsString
  | chunk i => chunkLine context.runId i (BatchLog.chunk bytes i)
  | result => resultLine H bytes context
  | noise line => line

def Piece.isOwn : Piece → Bool
  | chunk _ => true
  | result => true
  | noise _ => false

def Piece.chunk? (bytes : Bytes) : Piece → Option (ℕ × Bytes)
  | chunk i => some (i, BatchLog.chunk bytes i)
  | result => none
  | noise _ => none

/-- A permutation of an image is the image of a permutation. -/
theorem exists_of_perm_map {α β : Type} (f : α → β) {xs : List α} {ys : List β}
    (h : ys.Perm (xs.map f)) : ∃ zs : List α, zs.Perm xs ∧ ys = zs.map f := by
  generalize hmap : xs.map f = image at h
  induction h generalizing xs with
  | nil => exact ⟨xs, .refl xs, hmap.symm⟩
  | @cons b l₁ l₂ _ ih =>
    obtain ⟨a, rest, rfl, rfl, hrest⟩ := List.map_eq_cons_iff.mp hmap
    obtain ⟨zs, hperm, rfl⟩ := ih hrest
    exact ⟨a :: zs, hperm.cons a, rfl⟩
  | swap b c l =>
    obtain ⟨a, rest, rfl, rfl, hrest⟩ := List.map_eq_cons_iff.mp hmap
    obtain ⟨a', rest', rfl, rfl, rfl⟩ := List.map_eq_cons_iff.mp hrest
    exact ⟨a' :: a :: rest', .swap a a' rest', rfl⟩
  | trans _ _ ihfirst ihsecond =>
    obtain ⟨zs, hperm, rfl⟩ := ihsecond hmap
    obtain ⟨zs', hperm', rfl⟩ := ihfirst rfl
    exact ⟨zs', hperm'.trans hperm, rfl⟩

/-- Lines that come once each, in any order and among others, are all taken in. -/
theorem foldlM_pieces (hmatches : Matches p context) (hbytes : bytes.length ≤ 4194304)
    (hexit : 0 ≤ context.exitCode ∧ context.exitCode ≤ 255) {pieces : List Piece} {lines : Lines}
    (hchunks : ∀ i, Piece.chunk i ∈ pieces → i < chunkCount bytes)
    (hnoise : ∀ line, Piece.noise line ∈ pieces → IsNoise line)
    (honce : (pieces.filter Piece.isOwn).Nodup)
    (hnew : ∀ i, Piece.chunk i ∈ pieces → i ∉ lines.chunks.map Prod.fst)
    (hresult : Piece.result ∈ pieces → lines.result = none) :
    (pieces.map (Piece.line H bytes context)).foldlM (readRecord p) lines =
      .ok ⟨lines.chunks ++ pieces.filterMap (Piece.chunk? bytes),
        if Piece.result ∈ pieces then some (batchRecord H bytes context) else lines.result⟩ := by
  induction pieces generalizing lines with
  | nil =>
    simp only [List.map_nil, List.foldlM_nil, List.filterMap_nil, List.append_nil,
      List.not_mem_nil, if_false]
    rfl
  | cons piece pieces ih =>
    have hrest : ∀ lines' : Lines, (∀ i, Piece.chunk i ∈ pieces → i ∉ lines'.chunks.map Prod.fst) →
        (Piece.result ∈ pieces → lines'.result = none) →
        (pieces.map (Piece.line H bytes context)).foldlM (readRecord p) lines' =
          .ok ⟨lines'.chunks ++ pieces.filterMap (Piece.chunk? bytes),
            if Piece.result ∈ pieces then some (batchRecord H bytes context)
            else lines'.result⟩ := by
      intro lines' hnew' hresult'
      refine ih (fun i hi ↦ hchunks i (List.mem_cons_of_mem _ hi))
        (fun line hline ↦ hnoise line (List.mem_cons_of_mem _ hline)) ?_ hnew' hresult'
      exact honce.sublist ((List.sublist_cons_self piece pieces).filter Piece.isOwn)
    rw [List.map_cons, List.foldlM_cons]
    cases piece with
    | chunk i =>
      have hcount := chunkCount_le hbytes
      have hi := hchunks i List.mem_cons_self
      have hread : readRecord p lines ((Piece.chunk i).line H bytes context) =
          .ok { lines with chunks := lines.chunks ++ [(i, chunk bytes i)] } := by
        rw [Piece.line, hmatches.runId]
        exact readRecord_chunkLine (by omega) (chunk_bounds hi) (hnew i List.mem_cons_self)
      rw [hread, ok_bind, hrest]
      · simp [Piece.chunk?, List.append_assoc]
      · intro j hj hmem
        rw [List.map_append, List.mem_append] at hmem
        rcases hmem with hmem | hmem
        · exact hnew j (List.mem_cons_of_mem _ hj) hmem
        · -- the same chunk does not come again
          obtain rfl : j = i := List.mem_singleton.mp hmem
          rw [List.filter_cons_of_pos rfl] at honce
          exact (List.nodup_cons.mp honce).1 (List.mem_filter.mpr ⟨hj, rfl⟩)
      · exact fun hmem ↦ hresult (List.mem_cons_of_mem _ hmem)
    | result =>
      have hnone := hresult List.mem_cons_self
      rw [List.filter_cons_of_pos rfl] at honce
      have hnot : Piece.result ∉ pieces := fun hmem ↦
        (List.nodup_cons.mp honce).1 (List.mem_filter.mpr ⟨hmem, rfl⟩)
      have hread : readRecord p lines (Piece.result.line H bytes context) =
          .ok { lines with result := some (batchRecord H bytes context) } :=
        readRecord_resultLine hmatches hbytes hexit hnone
      rw [hread, ok_bind, hrest]
      · have hskip : (Piece.result :: pieces).filterMap (Piece.chunk? bytes) =
            pieces.filterMap (Piece.chunk? bytes) := List.filterMap_cons_none rfl
        simp [hskip, hnot]
      · exact fun i hi ↦ hnew i (List.mem_cons_of_mem _ hi)
      · exact fun hmem ↦ absurd hmem hnot
    | noise line =>
      have hread : readRecord p lines ((Piece.noise line).line H bytes context) = .ok lines :=
        readRecord_noise (hnoise line List.mem_cons_self) lines
      rw [hread, ok_bind, hrest]
      · have hskip : (Piece.noise line :: pieces).filterMap (Piece.chunk? bytes) =
            pieces.filterMap (Piece.chunk? bytes) := List.filterMap_cons_none rfl
        simp [hskip]
      · exact fun i hi ↦ hnew i (List.mem_cons_of_mem _ hi)
      · exact fun hmem ↦ hresult (List.mem_cons_of_mem _ hmem)

/-! ### Putting the chunks together -/

/-- The chunks of the bytes with their indices. -/
def indexedChunks (bytes : Bytes) : List (ℕ × Bytes) :=
  (List.range (chunkCount bytes)).map fun i ↦ (i, chunk bytes i)

private theorem pairwise_indexedChunks (bytes : Bytes) :
    (indexedChunks bytes).Pairwise fun a b ↦ decide (a.1 ≤ b.1) = true := by
  rw [indexedChunks, List.pairwise_map]
  exact List.pairwise_lt_range.imp fun h ↦ decide_eq_true h.le

theorem sortChunks_perm {chunks : List (ℕ × Bytes)} (h : chunks.Perm (indexedChunks bytes)) :
    sortChunks chunks = indexedChunks bytes := by
  refine List.Perm.eq_of_pairwise ?_ (List.pairwise_mergeSort ?_ ?_ chunks)
    (pairwise_indexedChunks bytes) ((List.mergeSort_perm chunks _).trans h)
  · -- two chunks with one index are the same
    intro a b ha hb hab hba
    have ha' := ((List.mergeSort_perm chunks _).trans h).subset ha
    obtain ⟨i, -, rfl⟩ := List.mem_map.mp ha'
    obtain ⟨j, -, rfl⟩ := List.mem_map.mp hb
    have hij : i = j := le_antisymm (of_decide_eq_true hab) (of_decide_eq_true hba)
    rw [hij]
  · intro a b c hab hbc
    exact decide_eq_true ((of_decide_eq_true hab).trans (of_decide_eq_true hbc))
  · intro a b
    rw [Bool.or_eq_true, decide_eq_true_iff, decide_eq_true_iff]
    exact le_total a.1 b.1

theorem isSequential_indexedChunks (bytes : Bytes) : isSequential (indexedChunks bytes) = true := by
  rw [isSequential, List.all_eq_true]
  rintro ⟨entry, k⟩ hentry
  obtain ⟨hk, hget⟩ := List.mem_zipIdx' hentry
  rw [indexedChunks, List.length_map, List.length_range] at hk
  have hvalue : entry = (k, chunk bytes k) := by
    rw [hget]
    simp [indexedChunks]
  rw [hvalue, Bool.and_eq_true, Bool.or_eq_true, decide_eq_true_iff, decide_eq_true_iff,
    decide_eq_true_iff]
  refine ⟨rfl, ?_⟩
  rw [indexedChunks, List.length_map, List.length_range]
  simp only [chunk, List.length_take, List.length_drop]
  rw [chunkCount] at hk ⊢
  omega

theorem assemble_perm {chunks : List (ℕ × Bytes)} (h : chunks.Perm (indexedChunks bytes)) :
    assemble H chunks (batchRecord H bytes context) = .ok bytes := by
  have hlength : chunks.length = chunkCount bytes := by
    rw [h.length_eq, indexedChunks, List.length_map, List.length_range]
  have hjoin : (indexedChunks bytes).flatMap Prod.snd = bytes := by
    rw [indexedChunks, List.flatMap_map]
    exact flatMap_chunk bytes
  simp only [assemble, bind_eq_ok, reject_eq_ok, exists_unit, pure_eq_ok]
  rw [sortChunks_perm h, hjoin, isSequential_indexedChunks, hlength]
  simp [batchRecord]

/-! ### From the encoder to the classifier -/

/-- The pieces of a log, the encoder's own first. -/
def ownPieces (bytes : Bytes) : List Piece :=
  (List.range (chunkCount bytes)).map Piece.chunk ++ [.result]

private theorem nodup_ownPieces (bytes : Bytes) : (ownPieces bytes).Nodup := by
  rw [ownPieces, List.nodup_append]
  refine ⟨List.nodup_range.map fun i j h ↦ Piece.chunk.inj h, List.nodup_singleton _, ?_⟩
  intro a ha b hb
  obtain ⟨i, -, rfl⟩ := List.mem_map.mp ha
  rw [List.mem_singleton.mp hb]
  exact Piece.noConfusion

/-- The pieces are taken in whatever their order. -/
theorem foldlM_perm (hmatches : Matches p context) (hbytes : bytes.length ≤ 4194304)
    (hexit : 0 ≤ context.exitCode ∧ context.exitCode ≤ 255) {noise records : List JsString}
    (hnoise : ∀ line ∈ noise, IsNoise line)
    (hrecords : records.Perm (chunkLines context.runId bytes ++ [resultLine H bytes context] ++
      noise)) :
    ∃ chunks, records.foldlM (readRecord p) ⟨[], none⟩ =
      .ok ⟨chunks, some (batchRecord H bytes context)⟩ ∧ chunks.Perm (indexedChunks bytes) := by
  have himage : chunkLines context.runId bytes ++ [resultLine H bytes context] ++ noise =
      (ownPieces bytes ++ noise.map Piece.noise).map (Piece.line H bytes context) := by
    rw [ownPieces, List.map_append, List.map_append, List.map_map, List.map_map]
    refine congrArg₂ (· ++ ·) rfl ?_
    exact (List.map_id' noise).symm
  rw [himage] at hrecords
  obtain ⟨pieces, hperm, rfl⟩ := exists_of_perm_map _ hrecords
  have hmem : ∀ piece, piece ∈ pieces ↔ piece ∈ ownPieces bytes ∨ piece ∈ noise.map Piece.noise :=
    fun piece ↦ hperm.mem_iff.trans List.mem_append
  have hchunks : ∀ i, Piece.chunk i ∈ pieces → i < chunkCount bytes := by
    intro i hi
    rcases (hmem _).mp hi with hi | hi
    · simpa [ownPieces] using hi
    · simp at hi
  have hlines : ∀ line, Piece.noise line ∈ pieces → IsNoise line := by
    intro line hline
    rcases (hmem _).mp hline with hline | hline
    · simp [ownPieces] at hline
    · exact hnoise line (by simpa using hline)
  have hown : (ownPieces bytes ++ noise.map Piece.noise).filter Piece.isOwn = ownPieces bytes := by
    rw [List.filter_append, List.filter_map]
    have hnone : noise.filter (Piece.isOwn ∘ Piece.noise) = [] :=
      List.filter_eq_nil_iff.mpr fun line _ h ↦ Bool.false_ne_true h
    rw [hnone, List.map_nil, List.append_nil, List.filter_eq_self]
    intro piece hpiece
    rcases List.mem_append.mp hpiece with hpiece | hpiece
    · obtain ⟨i, -, rfl⟩ := List.mem_map.mp hpiece
      rfl
    · rw [List.mem_singleton.mp hpiece]
      rfl
  have honce : (pieces.filter Piece.isOwn).Nodup := by
    rw [(hperm.filter Piece.isOwn).nodup_iff, hown]
    exact nodup_ownPieces bytes
  have hresult : Piece.result ∈ pieces := (hmem _).mpr (.inl (by simp [ownPieces]))
  refine ⟨pieces.filterMap (Piece.chunk? bytes), ?_, (hperm.filterMap _).trans ?_⟩
  · rw [foldlM_pieces hmatches hbytes hexit hchunks hlines honce (fun _ _ ↦ List.not_mem_nil)
      fun _ ↦ rfl, if_pos hresult, List.nil_append]
  · have hnoChunk : (noise.map Piece.noise).filterMap (Piece.chunk? bytes) = [] := by
      rw [List.filterMap_map, List.filterMap_eq_nil_iff]
      exact fun line _ ↦ rfl
    rw [List.filterMap_append, hnoChunk, List.append_nil, ownPieces, List.filterMap_append,
      List.filterMap_map]
    have hsome : Piece.chunk? bytes ∘ Piece.chunk = some ∘ fun i ↦ (i, chunk bytes i) := rfl
    rw [hsome, List.filterMap_eq_map]
    exact .of_eq (List.append_nil _)

/-- The envelope of a log. -/
def logsValue (uid : JsString) (complete : Bool) (records : List JsString) : JsValue :=
  .obj [(js "jobUid", .str uid), (js "complete", .bool complete),
    (js "records", .arr (records.map .str))]

private theorem mapM_text (records : List JsString) :
    (records.map JsValue.str).mapM text = some records := by
  induction records with
  | nil => rfl
  | cons record records ih =>
    rw [List.map_cons, List.mapM_cons, ih]
    rfl

theorem readLogs_logsValue {a : Acceptance} {complete : Bool} {records : List JsString}
    (hcount : records.length ≤ 4096) (hsize : ∀ line ∈ records, byteLength line ≤ 65536) :
    readLogs a (logsValue a.uid complete records) = .ok ⟨complete, records⟩ := by
  have huid : text (field (logsValue a.uid complete records) "jobUid") = some a.uid := by
    rfl
  have hcomplete : field (logsValue a.uid complete records) "complete" = .bool complete := by
    rfl
  have hrecords : (elements (field (logsValue a.uid complete records) "records")).bind
      (·.mapM text) = some records := mapM_text records
  simp only [readLogs, bind_eq_ok, reject_eq_ok, orThrow_eq_ok, exists_unit, pure_eq_ok]
  refine ⟨?_, records, hrecords, ?_, ?_⟩
  · rw [huid, hcomplete]
    cases complete <;> simp [TrialCleanup.isTrue, BatchResult.isFalse]
  · rw [not_or, List.any_eq_true]
    refine ⟨by omega, ?_⟩
    rintro ⟨line, hline, hlong⟩
    exact absurd (hsize line hline) (Nat.not_le.mpr (of_decide_eq_true hlong))
  · rw [hcomplete]
    cases complete <;> rfl

/-- No line of an accepted envelope is longer than the limit. -/
theorem size_of_readLogs {a : Acceptance} {uid : JsString} {complete : Bool}
    {records : List JsString} {envelope : Logs}
    (h : readLogs a (logsValue uid complete records) = .ok envelope) :
    ∀ line ∈ records, byteLength line ≤ 65536 := by
  simp only [readLogs, bind_eq_ok, reject_eq_ok, orThrow_eq_ok, exists_unit, pure_eq_ok] at h
  obtain ⟨-, records', hrecords, hsize, -⟩ := h
  obtain rfl : records = records' := Option.some.inj ((mapM_text records).symm.trans hrecords)
  intro line hline
  by_contra hlong
  apply hsize
  exact .inr (List.any_eq_true.mpr ⟨line, hline, decide_eq_true (Nat.not_le.mp hlong)⟩)

/-- A log that is classified has an accepted envelope. -/
theorem readLogs_of_classify {prepared accepted logs : JsValue} {job inventory : Option JsValue}
    {a : Acceptance} {o : Outcome} (hprepared : prepare H prepared = .ok p)
    (haccepted : acceptance dateParse p accepted = .ok a)
    (h : classifyBatchResult H dateParse prepared (some accepted) job (some logs) inventory =
      .ok o) : ∃ envelope, readLogs a logs = .ok envelope := by
  rw [classifyBatchResult, hprepared, ok_bind] at h
  simp only [haccepted, ok_bind, smokeWith, smokePassed, bind_eq_ok] at h
  obtain ⟨_, -, _, ⟨_, ⟨envelope, henvelope, -⟩, -⟩, -⟩ := h
  exact ⟨envelope, henvelope⟩

/-- A line with a chunk fits the limit of a record. -/
theorem byteLength_chunkLine {runId : JsString} (hrun : byteLength runId = 32) {i : ℕ}
    (hi : i < 1366) {data : Bytes} (hdata : data.length ≤ 3072) :
    byteLength (chunkLine runId i data) ≤ 65536 := by
  have hplain := plain_chunkRecord runId hi data
  have hmarker : isWellFormed (js logMarker ++ js " ") = true := by
    decide
  have hdataLength : byteLength (base64 data) ≤ 4096 := by
    rw [byteLength_of_ascii (base64_ascii data), length_base64]
    omega
  have hrunWeight := weight_str_le (n := 32) hrun.le
  have hdataWeight := weight_str_le hdataLength
  have hweight := hplain.byteLength_compactText_le
  have hkeys : byteLength (quote (js "runId")) + byteLength (quote (js "index")) +
      byteLength (quote (js "data")) + byteLength (js logMarker ++ js " ") ≤ 100 := by
    decide
  rw [chunkRecord, JsValue.weight, membersWeight, membersWeight, membersWeight, membersWeight]
    at hweight
  have hnumber : (JsValue.num (.int (i : ℤ))).weight = 17 := rfl
  rw [chunkLine, byteLength_append hmarker]
  rw [chunkRecord]
  omega

theorem runId_of_prepare {prepared : JsValue} (h : prepare H prepared = .ok p) :
    isHexOfLength 32 p.runId = true := by
  simp only [prepare, bind_eq_ok, orThrow_eq_ok, pure_eq_ok] at h
  obtain ⟨runId, hrun, _, -, _, -, _, -, _, -, _, -, _, -, _, -, _, -, rfl⟩ := h
  exact (Option.filter_eq_some_iff.mp hrun).2

/-- Whatever the order of the encoder's lines, and whatever lines come between them, the classifier
takes the log of a succeeded job and tells what the encoder told. -/
theorem classify_encoded {prepared accepted job : JsValue} {a : Acceptance} {j : Job}
    (hprepared : prepare H prepared = .ok p) (haccepted : acceptance dateParse p accepted = .ok a)
    (hjob : readJob dateParse p a job = .ok j) (hsucceeded : j.state = .succeeded)
    (hmatches : Matches p context) (hexit : 0 ≤ context.exitCode ∧ context.exitCode ≤ 255)
    {lines : List JsString} (hlines : encodeBatchLog H bytes context = .ok lines)
    {noise records : List JsString} (hnoise : ∀ line ∈ noise, IsNoise line)
    (hrecords : records.Perm (lines ++ noise)) (hcount : records.length ≤ 4096)
    (hsize : ∀ line ∈ records, byteLength line ≤ 65536) :
    classifyBatchResult H dateParse prepared (some accepted) (some job)
        (some (logsValue a.uid true records)) none =
      .ok ⟨if passed bytes context then .passed else .unverified, false⟩ := by
  simp only [encodeBatchLog, bind_eq_ok, reject_eq_ok, exists_unit, pure_eq_ok, not_lt] at hlines
  obtain ⟨hbytes, rfl⟩ := hlines
  obtain ⟨chunks, hfold, hperm⟩ :=
    foldlM_perm (p := p) (H := H) hmatches hbytes hexit hnoise hrecords
  have hsmoke : smokePassed H p a (some j) (logsValue a.uid true records) =
      .ok (passed bytes context) := by
    rw [smokePassed, readLogs_logsValue hcount hsize, ok_bind]
    simp only [hfold, ok_bind]
    rw [assemble_perm hperm, ok_bind, Option.any_some, hsucceeded, batchRecord]
    -- the classifier asks again for what made the encoder's status
    by_cases hcontext : context.exitCode = 0 ∧ context.phase = js "complete"
    · cases hsummary : hasBatchSmokeSummary (utf8Decode bytes) <;>
        simp [passed, hcontext, hsummary, pure, Except.pure]
    · have hnot : passed bytes context = false := by
        rw [passed, decide_eq_false hcontext, Bool.false_and]
      have hnot' : ¬ (context.phase = js "complete" ∧ context.exitCode = 0) := fun h ↦
        hcontext h.symm
      simp [hnot, pure, Except.pure]
  rw [classifyBatchResult, hprepared, ok_bind]
  simp only [haccepted, ok_bind, Option.mapM_some, hjob, smokeWith, absentWith]
  simp [hsucceeded, hsmoke, Functor.map, Except.map, bind, Except.bind, pure, Except.pure]

/-! ### From the classifier to the encoder -/

/-- What a line says of a chunk: the run, the index and the data. -/
def recordedChunk (line : JsString) : Option (JsString × ℤ × JsString) := do
  let record ← (markedRecord logMarker line).toOption
  let runId ← text (field record "runId")
  let index ← integer (field record "index")
  let data ← text (field record "data")
  return (runId, index, data)

def isLogLine (line : JsString) : Bool := startsWith line logMarker

/-- A chunk with its index, as a line records it. -/
def recorded (runId : JsString) (c : ℕ × Bytes) : Option (JsString × ℤ × JsString) :=
  some (runId, (c.1 : ℤ), base64 c.2)

/-- The chunk fits its bounds. -/
def IsChunk (c : ℕ × Bytes) : Prop := c.1 < 1366 ∧ 0 < c.2.length ∧ c.2.length ≤ 3072

theorem recordedChunk_chunkLine (runId : JsString) {i : ℕ} (hi : i < 1366) (data : Bytes) :
    recordedChunk (chunkLine runId i data) = recorded runId (i, data) := by
  have hindex : integer (field (chunkRecord runId i data) "index") = some (i : ℤ) :=
    integer_num (isSafe_of_bounds (by omega) (by omega))
  rw [recordedChunk, chunkLine, markedRecord_marked logMarker (plain_chunkRecord runId hi data)]
  simp only [Except.toOption, Option.bind_eq_bind, Option.bind_some, hindex]
  rfl

private theorem readChunk_eq_ok {lines lines' : Lines} {record : JsValue}
    (h : readChunk p lines record = .ok lines') :
    ∃ c : ℕ × Bytes, lines' = { lines with chunks := lines.chunks ++ [c] } ∧ IsChunk c ∧
      text (field record "runId") = some p.runId ∧
      integer (field record "index") = some (c.1 : ℤ) ∧
        text (field record "data") = some (base64 c.2) := by
  simp only [readChunk, bind_eq_ok, reject_eq_ok, orThrow_eq_ok, exists_unit, pure_eq_ok] at h
  obtain ⟨hidentity, index, hindex, -, data, hdata, hbytes, rfl⟩ := h
  rw [not_or, not_not] at hidentity
  obtain ⟨hindex, hbounds⟩ := Option.filter_eq_some_iff.mp hindex
  obtain ⟨hdata, -⟩ := Option.filter_eq_some_iff.mp hdata
  have hbounds := of_decide_eq_true hbounds
  simp only [not_or, not_lt, not_not] at hbytes
  refine ⟨(index.toNat, base64Decode data), rfl, ⟨?_, ?_, hbytes.2.1⟩, hidentity.2, ?_, ?_⟩
  · show index.toNat < 1366
    omega
  · exact List.length_pos_of_ne_nil hbytes.1
  · rw [hindex, Int.toNat_of_nonneg hbounds.1]
  · rw [hdata, hbytes.2.2]

private theorem readResult_chunks {lines lines' : Lines} {record : JsValue}
    (h : readResult p lines record = .ok lines') : lines'.chunks = lines.chunks := by
  simp only [readResult, bind_eq_ok, pure_eq_ok] at h
  obtain ⟨_, -, _, -, _, -, _, -, _, -, _, -, _, -, rfl⟩ := h
  rfl

/-- What one line adds. -/
theorem readRecord_eq_ok {lines lines' : Lines} {line : JsString}
    (h : readRecord p lines line = .ok lines') :
    ∃ added, lines'.chunks = lines.chunks ++ added ∧ (∀ c ∈ added, IsChunk c) ∧
      ([line].filter isLogLine).map recordedChunk = added.map (recorded p.runId) := by
  rw [readRecord] at h
  by_cases hlog : startsWith line logMarker = true
  · rw [if_pos hlog, bind_eq_ok] at h
    obtain ⟨record, hrecord, h⟩ := h
    obtain ⟨c, rfl, hc, hrun, hindex, hdata⟩ := readChunk_eq_ok h
    refine ⟨[c], rfl, ?_, ?_⟩
    · intro d hd
      rw [List.mem_singleton.mp hd]
      exact hc
    · rw [List.filter_cons_of_pos (show isLogLine line = true from hlog), List.filter_nil,
        List.map_singleton, List.map_singleton, recordedChunk, hrecord]
      simp only [Except.toOption, Option.bind_eq_bind, Option.bind_some, hrun, hindex, hdata]
      rfl
  · rw [if_neg hlog] at h
    have hnone : ([line].filter isLogLine).map recordedChunk = [] := by
      rw [List.filter_cons_of_neg (show ¬ isLogLine line = true from hlog)]
      rfl
    refine ⟨[], ?_, fun c hc ↦ absurd hc List.not_mem_nil, hnone⟩
    rw [List.append_nil]
    split at h
    · rw [bind_eq_ok] at h
      obtain ⟨record, -, h⟩ := h
      exact readResult_chunks h
    · rw [Except.ok.inj h]

/-- What all lines add. -/
theorem foldlM_eq_ok {records : List JsString} {lines lines' : Lines}
    (h : records.foldlM (readRecord p) lines = .ok lines') :
    ∃ added, lines'.chunks = lines.chunks ++ added ∧ (∀ c ∈ added, IsChunk c) ∧
      (records.filter isLogLine).map recordedChunk = added.map (recorded p.runId) := by
  induction records generalizing lines with
  | nil =>
    obtain rfl := Except.ok.inj h
    exact ⟨[], (List.append_nil _).symm, fun c hc ↦ absurd hc List.not_mem_nil, rfl⟩
  | cons line records ih =>
    rw [List.foldlM_cons, bind_eq_ok] at h
    obtain ⟨lines₁, hline, h⟩ := h
    obtain ⟨first, hfirst, hfirstChunks, hfirstRecorded⟩ := readRecord_eq_ok hline
    obtain ⟨rest, hrest, hrestChunks, hrestRecorded⟩ := ih h
    refine ⟨first ++ rest, by rw [hrest, hfirst, List.append_assoc], ?_, ?_⟩
    · intro c hc
      exact (List.mem_append.mp hc).elim (hfirstChunks c) (hrestChunks c)
    · rw [← List.singleton_append, List.filter_append, List.map_append, List.map_append,
        hfirstRecorded, hrestRecorded]

/-- Chunks that were put together are those of the bytes. -/
theorem assemble_eq_ok {chunks : List (ℕ × Bytes)} {result : BatchRecord}
    (hchunks : ∀ c ∈ chunks, IsChunk c) (h : assemble H chunks result = .ok bytes) :
    chunks.Perm (indexedChunks bytes) ∧ result.logBytes = bytes.length ∧
      result.logSha256 = H.hex bytes := by
  simp only [assemble, bind_eq_ok, reject_eq_ok, exists_unit, pure_eq_ok, not_or, not_not,
    Bool.not_eq_false] at h
  obtain ⟨-, hsequential, ⟨hlength, hdigest⟩, rfl⟩ := h
  refine ⟨?_, hlength.symm, hdigest.symm⟩
  have hperm : (sortChunks chunks).Perm chunks := List.mergeSort_perm chunks _
  generalize sortChunks chunks = ordered at hsequential hperm
  refine hperm.symm.trans (.of_eq ?_)
  have hentries : ∀ k (hk : k < ordered.length), (ordered.get ⟨k, hk⟩).1 = k ∧
      (k + 1 = ordered.length ∨ (ordered.get ⟨k, hk⟩).2.length = 3072) := by
    intro k hk
    have hmem : (ordered.get ⟨k, hk⟩, k) ∈ ordered.zipIdx := by
      rw [List.mem_zipIdx_iff_getElem?]
      exact List.getElem?_eq_getElem hk
    have hall := List.all_eq_true.mp hsequential _ hmem
    simpa only [Bool.and_eq_true, Bool.or_eq_true, decide_eq_true_eq] using hall
  have hjoin : ordered.flatMap Prod.snd = (ordered.map Prod.snd).flatten := rfl
  obtain ⟨hcount, hpieces⟩ := pieces_of_join (k := 3072) (by decide) (ordered.map Prod.snd)
    (by
      intro b hb
      obtain ⟨c, hc, rfl⟩ := List.mem_map.mp hb
      exact (hchunks c (hperm.subset hc)).2)
    (by
      intro k hk
      have hk' : k < ordered.length := by simpa using hk
      have hentry := (hentries k hk').2
      simpa using hentry)
  rw [List.length_map] at hcount
  rw [hjoin]
  refine List.ext_getElem ?_ fun k hk _ ↦ ?_
  · rw [indexedChunks, List.length_map, List.length_range]
    exact hcount
  · have hindex : ordered[k].1 = k := (hentries k hk).1
    have hpiece := hpieces k (by simpa using hk)
    have hdata : ordered[k].2 = chunk (ordered.map Prod.snd).flatten k := by
      simpa [chunk] using hpiece
    simp only [indexedChunks, List.getElem_map, List.getElem_range]
    exact Prod.ext hindex hdata

/-! ### The log of a run -/

/-- Where the log shows that the test passed, what it rests on. -/
theorem smokePassed_eq_ok {a : Acceptance} {job : Option Job} {logs : JsValue}
    (h : smokePassed H p a job logs = .ok true) :
    ∃ (envelope : Logs) (lines : Lines) (result : BatchRecord) (bytes : Bytes),
      readLogs a logs = .ok envelope ∧
        envelope.records.foldlM (readRecord p) ⟨[], none⟩ = .ok lines ∧
        lines.result = some result ∧ assemble H lines.chunks result = .ok bytes ∧
        hasBatchSmokeSummary (utf8Decode bytes) = true := by
  simp only [smokePassed, bind_eq_ok] at h
  obtain ⟨envelope, henvelope, lines, hlines, h⟩ := h
  cases hresult : lines.result with
  | none =>
    rw [hresult] at h
    exact absurd (Except.ok.inj h) Bool.false_ne_true
  | some result =>
    rw [hresult] at h
    simp only [bind_eq_ok, pure_eq_ok, Bool.and_eq_true] at h
    obtain ⟨bytes, hbytes, -, hsummary⟩ := h
    exact ⟨envelope, lines, result, bytes, henvelope, hlines, hresult, hbytes, hsummary⟩

/-- A log that passes consists of the chunks the encoder makes of one byte string, the one with the
length and the digest of the result line. -/
theorem encoded_of_passed {prepared : JsValue} {accepted job logs inventory : Option JsValue}
    {o : Outcome} (h : classifyBatchResult H dateParse prepared accepted job logs inventory = .ok o)
    (hpassed : o.smoke = .passed) :
    ∃ (p : Prepared) (accepted' : JsValue) (a : Acceptance) (logs' : JsValue) (envelope : Logs)
      (lines : Lines) (result : BatchRecord) (bytes : Bytes),
      prepare H prepared = .ok p ∧ accepted = some accepted' ∧
        acceptance dateParse p accepted' = .ok a ∧ logs = some logs' ∧
        readLogs a logs' = .ok envelope ∧
        envelope.records.foldlM (readRecord p) ⟨[], none⟩ = .ok lines ∧
        lines.result = some result ∧ result.logBytes = bytes.length ∧
        result.logSha256 = H.hex bytes ∧
        ((envelope.records.filter isLogLine).map recordedChunk).Perm
          ((chunkLines p.runId bytes).map recordedChunk) ∧
        hasBatchSmokeSummary (utf8Decode bytes) = true ∧
        ∀ other : Bytes, H.hex other = result.logSha256 →
          (H.digest other = H.digest bytes → other = bytes) → other = bytes := by
  rw [classifyBatchResult, bind_eq_ok] at h
  obtain ⟨p, hprepared, h⟩ := h
  cases accepted with
  | none =>
    simp only [bind_eq_ok, pure_eq_ok] at h
    obtain ⟨_, -, rfl⟩ := h
    exact absurd hpassed (by decide)
  | some accepted' =>
    simp only [bind_eq_ok, pure_eq_ok] at h
    obtain ⟨a, haccepted, readJob', -, smoke, hsmoke, absent, -, rfl⟩ := h
    have hsmokePassed : smoke = .passed := hpassed
    obtain ⟨logs', hlogs, hread⟩ : ∃ logs', logs = some logs' ∧
        smokePassed H p a readJob' logs' = .ok true := by
      have hstart : ∀ b : Bool, (if b = true then Smoke.failed else .unverified) ≠ .passed := by
        decide
      cases logs with
      | none =>
        rw [smokeWith] at hsmoke
        exact absurd ((Except.ok.inj hsmoke).trans hsmokePassed) (hstart _)
      | some logs' =>
        simp only [smokeWith, bind_eq_ok, pure_eq_ok] at hsmoke
        obtain ⟨b, hb, hsmoke⟩ := hsmoke
        cases b with
        | true => exact ⟨logs', rfl, hb⟩
        | false =>
          rw [if_neg Bool.false_ne_true] at hsmoke
          exact absurd (hsmoke.trans hsmokePassed) (hstart _)
    obtain ⟨envelope, lines, result, bytes, henvelope, hlines, hresult, hbytes, hsummary⟩ :=
      smokePassed_eq_ok hread
    obtain ⟨added, hadded, hchunks, hrecorded⟩ := foldlM_eq_ok hlines
    rw [List.nil_append] at hadded
    subst hadded
    obtain ⟨hperm, hlength, hdigest⟩ := assemble_eq_ok hchunks hbytes
    refine ⟨p, accepted', a, logs', envelope, lines, result, bytes, hprepared, rfl, haccepted,
      hlogs, henvelope, hlines, hresult, hlength, hdigest, ?_, hsummary, ?_⟩
    · rw [hrecorded]
      refine (hperm.map (recorded p.runId)).trans (.of_eq ?_)
      rw [indexedChunks, chunkLines, List.map_map, List.map_map]
      refine List.map_congr_left fun i hi ↦ ?_
      have hmem : (i, chunk bytes i) ∈ lines.chunks := hperm.symm.subset (List.mem_map_of_mem hi)
      exact (recordedChunk_chunkLine p.runId (hchunks _ hmem).1 (chunk bytes i)).symm
    · intro other hother hfree
      exact hfree (hexText_injective (hother.trans hdigest))

/-- The encoder and the classifier agree. The lines of a log in any order, among lines that begin
with neither marker, none longer than 65536 bytes, are accepted and tell what the encoder told; and
a log that passes records the encoder's chunks of one byte string. -/
theorem batch_log_codec (H : HashFunction 32) (dateParse : DateParser) :
    (∀ (prepared accepted job : JsValue) (p : Prepared) (a : Acceptance) (j : Job) (bytes : Bytes)
        (context : Context) (lines noise records : List JsString),
      prepare H prepared = .ok p → acceptance dateParse p accepted = .ok a →
      readJob dateParse p a job = .ok j → j.state = .succeeded → Matches p context →
      0 ≤ context.exitCode ∧ context.exitCode ≤ 255 →
      encodeBatchLog H bytes context = .ok lines → byteLength (resultLine H bytes context) ≤ 65536 →
      (∀ line ∈ noise, IsNoise line ∧ byteLength line ≤ 65536) → records.Perm (lines ++ noise) →
      records.length ≤ 4096 →
      classifyBatchResult H dateParse prepared (some accepted) (some job)
          (some (logsValue a.uid true records)) none =
        .ok ⟨if passed bytes context then .passed else .unverified, false⟩) ∧
    ∀ (prepared : JsValue) (accepted job logs inventory : Option JsValue) (o : Outcome),
      classifyBatchResult H dateParse prepared accepted job logs inventory = .ok o →
      o.smoke = .passed →
      ∃ (p : Prepared) (accepted' : JsValue) (a : Acceptance) (logs' : JsValue) (envelope : Logs)
        (lines : Lines) (result : BatchRecord) (bytes : Bytes),
        prepare H prepared = .ok p ∧ accepted = some accepted' ∧
          acceptance dateParse p accepted' = .ok a ∧ logs = some logs' ∧
          readLogs a logs' = .ok envelope ∧
          envelope.records.foldlM (readRecord p) ⟨[], none⟩ = .ok lines ∧
          lines.result = some result ∧ result.logBytes = bytes.length ∧
          result.logSha256 = H.hex bytes ∧
          ((envelope.records.filter isLogLine).map recordedChunk).Perm
            ((chunkLines p.runId bytes).map recordedChunk) ∧
          hasBatchSmokeSummary (utf8Decode bytes) = true ∧
          ∀ other : Bytes, H.hex other = result.logSha256 →
            (H.digest other = H.digest bytes → other = bytes) → other = bytes := by
  constructor
  · intro prepared accepted job p a j bytes context lines noise records hprepared haccepted hjob
      hsucceeded hmatches hexit hlines hresultSize hnoise hrecords hcount
    refine classify_encoded hprepared haccepted hjob hsucceeded hmatches hexit hlines
      (fun line hline ↦ (hnoise line hline).1) hrecords hcount fun line hline ↦ ?_
    simp only [encodeBatchLog, bind_eq_ok, reject_eq_ok, exists_unit, pure_eq_ok, not_lt] at hlines
    obtain ⟨hbytes, rfl⟩ := hlines
    have hchunkCount := chunkCount_le hbytes
    rcases List.mem_append.mp (hrecords.subset hline) with hown | hother
    · rcases List.mem_append.mp hown with hchunk | hresult
      · obtain ⟨i, hi, rfl⟩ := List.mem_map.mp hchunk
        have hi := List.mem_range.mp hi
        refine byteLength_chunkLine ?_ (by omega) (chunk_bounds hi).2
        rw [hmatches.runId]
        exact byteLength_of_isHexOfLength (runId_of_prepare hprepared)
      · rw [List.mem_singleton.mp hresult]
        exact hresultSize
    · exact (hnoise line hother).2
  · intro prepared accepted job logs inventory o h hpassed
    exact encoded_of_passed h hpassed

/-! ### A run -/

private def sampleMaterial : JsValue :=
  .obj [(js "taskGroups", .arr [.obj [(js "taskSpec", .obj [(js "runnables",
      .arr [.obj [(js "script", .obj [(js "text", .str [])])]])])]]),
    (js "allocationPolicy", .null), (js "labels", .null), (js "logsPolicy", .null)]

private def sampleRun : Prepared where
  runId := List.replicate 32 0x30
  revision := List.replicate 40 0x30
  archive := List.replicate 64 0x30
  jobId := js "api-migrator-batch-" ++ List.replicate 32 0x30
  issuedAt := 1767225000000
  deleteAt := 1767228600000
  job := sampleMaterial

private def samplePrepared : JsValue :=
  .obj [(js "schemaVersion", .num (.int 1)), (js "projectId", .str project),
    (js "region", .str (js "us-central1")), (js "runId", .str sampleRun.runId),
    (js "jobId", .str sampleRun.jobId),
    (js "source", .obj [(js "revision", .str sampleRun.revision),
      (js "sha256", .str sampleRun.archive)]),
    (js "activationBlocked", .bool true), (js "issuedAt", .num (.int sampleRun.issuedAt)),
    (js "deleteAt", .num (.int sampleRun.deleteAt)), (js "job", sampleMaterial),
    (js "scriptSha256", .str (HashFunction.polynomial.hex []))]

private def sampleInstant : JsString := js "2026-01-01T00:00:00Z"

private def sampleDateParse : DateParser := fun s ↦
  if s = sampleInstant then some 1767225600000 else none

private def sampleAcceptance : Acceptance := ⟨js "uid", sampleInstant, 1767225600000⟩

private def sampleAccepted : JsValue :=
  .obj [(js "name", .str sampleRun.name), (js "uid", .str (js "uid")),
    (js "createTime", .str sampleInstant)]

private def sampleJob : JsValue :=
  .obj [(js "name", .str sampleRun.name), (js "uid", .str (js "uid")),
    (js "createTime", .str sampleInstant), (js "updateTime", .str sampleInstant),
    (js "status", .obj [(js "state", .str (js "SUCCEEDED"))]),
    (js "taskGroups", field sampleMaterial "taskGroups"), (js "allocationPolicy", .null),
    (js "labels", .null), (js "logsPolicy", .null)]

private def sampleContext : Context :=
  ⟨sampleRun.runId, sampleRun.revision, sampleRun.archive, js "complete", 0⟩

private theorem prepare_sample :
    prepare HashFunction.polynomial samplePrepared = .ok sampleRun := by
  simp only [prepare, bind_eq_ok, reject_eq_ok, orThrow_eq_ok, exists_unit, pure_eq_ok]
  refine ⟨sampleRun.runId, by decide +kernel, ?_, sampleRun.revision, by decide +kernel,
    sampleRun.archive, by decide +kernel, sampleRun.issuedAt, by decide +kernel,
    sampleRun.deleteAt, by decide +kernel, by decide +kernel, [], by decide +kernel,
    by decide +kernel, rfl⟩
  decide +kernel

private theorem acceptance_sample :
    acceptance sampleDateParse sampleRun sampleAccepted = .ok sampleAcceptance := by
  simp only [acceptance, bind_eq_ok, reject_eq_ok, orThrow_eq_ok, exists_unit, pure_eq_ok]
  exact ⟨by decide +kernel, js "uid", by decide +kernel, sampleInstant, by decide +kernel,
    1767225600000, by decide +kernel, rfl⟩

private theorem fetchedMaterial_sample :
    fetchedMaterial sampleRun sampleJob = .ok sampleMaterial := by
  rfl

private theorem readJob_sample : readJob sampleDateParse sampleRun sampleAcceptance sampleJob =
    .ok ⟨.succeeded, 1767225600000⟩ := by
  obtain ⟨material, hmaterial⟩ : ∃ t, canonicalJson sampleMaterial = .ok t := by
    have hsome : (canonicalJson sampleMaterial).toOption.isSome = true := by
      decide +kernel
    cases hencoded : canonicalJson sampleMaterial with
    | ok t => exact ⟨t, rfl⟩
    | error e =>
      rw [hencoded] at hsome
      exact absurd hsome Bool.false_ne_true
  simp only [readJob, bind_eq_ok, reject_eq_ok, orThrow_eq_ok, exists_unit, pure_eq_ok]
  refine ⟨by decide +kernel, 1767225600000, by decide +kernel, by decide +kernel,
    ("SUCCEEDED", .succeeded), by decide +kernel, by decide +kernel, sampleMaterial,
    fetchedMaterial_sample, material, hmaterial, material, hmaterial, ?_, rfl⟩
  exact not_not.mpr rfl

private theorem isNoise_replicate (n : ℕ) : IsNoise (List.replicate (n + 1) 0x61) :=
  ⟨rfl, rfl⟩

/-- The encoder's line of a log that is empty, after another line. -/
theorem batch_log_codec_sample :
    classifyBatchResult HashFunction.polynomial sampleDateParse samplePrepared
        (some sampleAccepted) (some sampleJob)
        (some (logsValue sampleAcceptance.uid true
          [[0x61], resultLine HashFunction.polynomial [] sampleContext])) none =
      .ok ⟨if passed [] sampleContext then .passed else .unverified, false⟩ :=
  (batch_log_codec HashFunction.polynomial sampleDateParse).1 samplePrepared sampleAccepted
    sampleJob sampleRun sampleAcceptance ⟨.succeeded, 1767225600000⟩ [] sampleContext
    [resultLine HashFunction.polynomial [] sampleContext] [[0x61]] _ prepare_sample
    acceptance_sample readJob_sample rfl ⟨rfl, rfl, rfl⟩ (by decide) rfl (by decide +kernel)
    (by decide +kernel) (List.Perm.swap _ _ _) (by decide)

/-- A line that is longer than 65536 bytes is refused, whatever it says. -/
theorem long_line_refused :
    ¬ ∀ (H : HashFunction 32) (dateParse : DateParser) (prepared accepted job : JsValue)
        (p : Prepared) (a : Acceptance) (j : Job) (bytes : Bytes) (context : Context)
        (lines noise records : List JsString),
      prepare H prepared = .ok p → acceptance dateParse p accepted = .ok a →
      readJob dateParse p a job = .ok j → j.state = .succeeded → Matches p context →
      encodeBatchLog H bytes context = .ok lines → (∀ line ∈ noise, IsNoise line) →
      records.Perm (lines ++ noise) → records.length ≤ 4096 →
      ∃ o, classifyBatchResult H dateParse prepared (some accepted) (some job)
          (some (logsValue a.uid true records)) none = .ok o ∧
        (o.smoke = .passed ↔ passed bytes context = true) := by
  intro h
  obtain ⟨o, ho, -⟩ := h HashFunction.polynomial sampleDateParse samplePrepared sampleAccepted
    sampleJob sampleRun sampleAcceptance ⟨.succeeded, 1767225600000⟩ [] sampleContext
    [resultLine HashFunction.polynomial [] sampleContext] [List.replicate (65536 + 1) 0x61] _
    prepare_sample acceptance_sample readJob_sample rfl ⟨rfl, rfl, rfl⟩ rfl
    (fun line hline ↦ List.mem_singleton.mp hline ▸ isNoise_replicate 65536) (.refl _)
    (show 2 ≤ 4096 by decide)
  have hlong : byteLength (List.replicate (65536 + 1) (0x61 : UInt16)) = 65536 + 1 := by
    rw [byteLength_of_ascii, List.length_replicate]
    intro c hc
    rw [List.eq_of_mem_replicate hc]
    decide
  obtain ⟨logs, hlogs⟩ := readLogs_of_classify prepare_sample acceptance_sample ho
  have hbound := size_of_readLogs hlogs (List.replicate (65536 + 1) 0x61)
    (List.mem_append_right _ (List.mem_singleton_self _))
  omega

end ApiMigrator.Ops.BatchAgreement
