import DvrBridge.SpsFields
import Mathlib.Tactic.IntervalCases

/-! The parser against the standard: it inverts the syntax of a parameter set bit by bit, and its
cropping arithmetic is the standard's. -/
namespace DvrBridge.H264
open BitReader Search

/-! Emulation prevention. -/

theorem replaceFrom_escapeFrom (zeros : Nat) (hz : zeros ≤ 2) (bs : Bytes) :
    replaceFrom [0, 0, 3] [0, 0] 0 (List.replicate zeros 0 ++ escapeFrom zeros bs) =
      List.replicate zeros 0 ++ bs := by
  induction bs generalizing zeros with
  | nil => interval_cases zeros <;> rfl
  | cons b bs ih =>
    have h0 := ih 0 (by omega)
    have h1 := ih 1 (by omega)
    have h2 := ih 2 (by omega)
    simp only [List.replicate_zero, List.nil_append, List.replicate_succ, List.cons_append]
      at h0 h1 h2
    rw [escapeFrom]
    by_cases hb : b = 0
    · subst hb
      interval_cases zeros
      · simpa using h1
      · simpa using h2
      · -- the third zero comes behind an escape, and its run starts anew
        simpa [replaceFrom] using h1
    · have hb' : (0 : UInt8) ≠ b := Ne.symm hb
      interval_cases zeros
      · simp [replaceFrom, hb, hb', h0]
      · simp [replaceFrom, hb, hb', h0]
      · by_cases h3 : b ≤ 3
        · simp [replaceFrom, hb, hb', h0, h3]
        · have hb3 : (3 : UInt8) ≠ b := by
            rintro rfl
            exact h3 (by decide)
          simp [replaceFrom, hb, hb', h0, h3, hb3]

/-- Emulation prevention is undone exactly, whatever the bytes are. -/
theorem stripEmulationPrevention_escape (rbsp : Bytes) :
    stripEmulationPrevention (escape rbsp) = rbsp :=
  replaceFrom_escapeFrom 0 (by omega) rbsp

/-! The standard's parameter sets are among those that the parser gets through. -/

theorem delta_bounds {delta : Int} (range : -128 ≤ delta ∧ delta ≤ 127) :
    -(2 ^ 31 - 1) ≤ delta ∧ delta ≤ 2 ^ 31 - 1 := by
  omega

def ScalingList.deltas : {n : Nat} → {last : Int} → ScalingList n last → Deltas n last
  | _, _, .full last => .full last
  | _, _, .stop delta range ends => .stop ⟨delta, delta_bounds range⟩ ends
  | _, _, .entry delta range goes rest => .entry ⟨delta, delta_bounds range⟩ goes rest.deltas

theorem ScalingList.deltas_code {n : Nat} {last : Int} (l : ScalingList n last) :
    l.deltas.code = l.code := by
  induction l with
  | full last => rfl
  | stop delta range ends => rfl
  | entry delta range goes rest ih =>
    rw [ScalingList.deltas, Deltas.code, ih]
    rfl

def ScalingMatrix.lists (m : ScalingMatrix) : (n i : Nat) → DeltaLists n i
  | 0, i => .nil i
  | n + 1, i => .cons ((m i).map ScalingList.deltas) (m.lists n (i + 1))

theorem ScalingMatrix.lists_code (m : ScalingMatrix) (n i : Nat) :
    (m.lists n i).code = (List.range' i n).flatMap m.listCode := by
  induction n generalizing i with
  | zero => rfl
  | succ n ih =>
    have hlist : optionCode Deltas.code ((m i).map ScalingList.deltas) = m.listCode i := by
      unfold ScalingMatrix.listCode
      cases m i with
      | none => rfl
      | some l => exact congrArg ([true] ++ ·) l.deltas_code
    rw [ScalingMatrix.lists, DeltaLists.code, ih, hlist, List.range'_succ, List.flatMap_cons]

theorem idc_le (c : ChromaFormat) : c.idc ≤ 2 ^ 32 - 2 := by
  cases c <;> exact of_decide_eq_true rfl

/-- The flag that only 4:4:4 has. -/
def ChromaFormat.separate : ChromaFormat → Option Bool
  | yuv444 separate => some separate
  | _ => none

theorem listCount_eq (c : ChromaFormat) : c.listCount = if c.idc ≠ 3 then 8 else 12 := by
  cases c <;> rfl

def HighFields.part (f : HighFields) : HighPart :=
  { chromaFormatIdc := ⟨f.chromaFormat.idc, idc_le _⟩
    separateColourPlane := f.chromaFormat.separate
    separate_iff := by cases f.chromaFormat <;> rfl
    bitDepthLumaMinus8 := f.bitDepthLumaMinus8
    bitDepthChromaMinus8 := f.bitDepthChromaMinus8
    qpprimeYZeroTransformBypass := f.qpprimeYZeroTransformBypass
    scalingMatrix := f.scalingMatrix.map fun m => m.lists _ 0 }

theorem HighFields.part_code (f : HighFields) : f.part.code = f.code := by
  have hchroma : ueCode f.chromaFormat.idc ++ (f.chromaFormat.separate.map ([·])).getD [] =
      f.chromaFormat.code := by
    unfold ChromaFormat.code
    cases f.chromaFormat <;> rfl
  have hmatrix : optionCode DeltaLists.code f.part.scalingMatrix =
      matrixCode f.chromaFormat.listCount f.scalingMatrix := by
    unfold HighFields.part
    cases f.scalingMatrix with
    | none => rfl
    | some m =>
      rw [matrixCode, List.range_eq_range', listCount_eq, ← ScalingMatrix.lists_code]
      rfl
  rw [HighPart.code, hmatrix, HighFields.code, ← hchroma, List.append_assoc]
  rfl

def PicOrderCnt.part : PicOrderCnt → PocPart
  | .type0 lsb => .type0 lsb
  | .type1 zero nonRef topToBottom refs count => .type1 zero nonRef topToBottom refs count
  | .type2 => .other ⟨2, by decide⟩ (Nat.le_refl 2)

theorem PicOrderCnt.part_code (p : PicOrderCnt) : p.part.code = p.code := by
  cases p <;> rfl

def Sps.fields (s : Sps) : SpsFields :=
  { profileIdc := s.profileIdc
    constraints := s.constraints
    levelIdc := s.levelIdc
    seqParameterSetId := s.seqParameterSetId
    high := s.high.map HighFields.part
    high_iff := by rw [Option.isSome_map, s.high_iff]
    log2MaxFrameNumMinus4 := s.log2MaxFrameNumMinus4
    picOrderCnt := s.picOrderCnt.part
    maxNumRefFrames := s.maxNumRefFrames
    gapsInFrameNumValueAllowed := s.gapsInFrameNumValueAllowed
    picWidthInMbsMinus1 := s.picWidthInMbsMinus1
    picHeightInMapUnitsMinus1 := s.picHeightInMapUnitsMinus1
    frameCoding := s.frameCoding
    direct8x8Inference := s.direct8x8Inference
    frameCropping := s.frameCropping }

theorem Sps.fields_high (s : Sps) : s.fields.high = s.high.map HighFields.part := rfl

theorem Sps.fields_code (s : Sps) : s.fields.code = s.code := by
  have hhigh : (s.fields.high.map HighPart.code).getD [] =
      (s.high.map HighFields.code).getD [] := by
    rw [s.fields_high]
    cases s.high with
    | none => rfl
    | some f => exact f.part_code
  have hpoc : s.fields.picOrderCnt.code = s.picOrderCnt.code := s.picOrderCnt.part_code
  rw [SpsFields.code, hhigh, hpoc, Sps.code, FrameCoding.code,
    List.append_assoc [s.frameCoding.mbsOnly]]
  rfl

theorem Sps.fields_chromaFormatIdc (s : Sps) : s.fields.chromaFormatIdc = s.chromaFormat.idc := by
  rw [SpsFields.chromaFormatIdc, s.fields_high, Sps.chromaFormat]
  cases s.high <;> rfl

/-! The size of the picture. -/

theorem cropX_eq (s : Sps) :
    s.cropUnitX = if s.chromaFormat.idc ≠ 0 then
      (if s.chromaFormat.idc ∈ [1, 2] then 2 else 1) else 1 := by
  unfold Sps.cropUnitX
  cases s.chromaFormat with
  | yuv444 separate => cases separate <;> rfl
  | monochrome | yuv420 | yuv422 => rfl

theorem factor_eq (f : FrameCoding) : f.factor = if f.mbsOnly then 1 else 2 := by
  cases f <;> rfl

theorem cropY_eq (s : Sps) :
    s.cropUnitY = if s.chromaFormat.idc ≠ 0 then
      (if s.chromaFormat.idc = 1 then 2 else 1) * s.frameCoding.factor
      else s.frameCoding.factor := by
  unfold Sps.cropUnitY
  cases s.chromaFormat with
  | yuv444 separate => cases separate <;> simp [ChromaFormat.arrayType, ChromaFormat.idc,
      ChromaFormat.subHeightC]
  | monochrome | yuv420 | yuv422 => rfl

/-- What the standard says of the parameter set. -/
def Sps.info (s : Sps) : SpsInfo :=
  { profileIdc := s.profileIdc.toNat
    levelIdc := s.levelIdc.toNat
    width := s.width
    height := s.height }

/-- The parser's arithmetic is the standard's. -/
theorem Sps.fields_info (s : Sps) : s.fields.info = s.info := by
  rw [SpsFields.info, s.fields_chromaFormatIdc]
  unfold Sps.fields spsInfo Sps.info Sps.width Sps.height
  simp only [SpsInfo.mk.injEq, true_and, cropX_eq, cropY_eq, factor_eq]
  cases s.frameCropping with
  | none =>
    simp only [Option.map_none, Option.getD_none]
    constructor
    · push_cast
      ring
    · push_cast
      ring
  | some c =>
    simp only [Option.map_some, Option.getD_some, FrameCropping.crop]
    constructor
    · push_cast
      ring
    · push_cast
      ring

/-- Of every parameter set of the standard, whatever follows it in its NAL unit, `parse_sps` returns
the profile, the level and the size of the cropped picture. -/
theorem parseSps_escape (s : Sps) (header : UInt8) (rbsp : Bytes) (rest : List Bool)
    (h : bitsOf rbsp = s.code ++ rest) : parseSps (header :: escape rbsp) = .ok s.info := by
  rw [← s.fields_code] at h
  obtain ⟨r, hr, -⟩ := reads_fields s.fields { data := rbsp } rest h
  have hstrip : stripEmulationPrevention (escape rbsp) = rbsp :=
    replaceFrom_escapeFrom 0 (by omega) rbsp
  rw [parseSps, List.drop_one, List.tail_cons, hstrip, hr, s.fields_info]
  rfl

/-- A High profile stream of 1088 lines, cropped to 1080. -/
def sps1080 : Sps :=
  { profileIdc := 100
    constraints := 0
    levelIdc := 40
    seqParameterSetId := ⟨0, by decide⟩
    high := some { chromaFormat := .yuv420, bitDepthLumaMinus8 := ⟨0, by decide⟩,
                   bitDepthChromaMinus8 := ⟨0, by decide⟩, qpprimeYZeroTransformBypass := false,
                   scalingMatrix := none }
    high_iff := by simp [HasHighFields]
    log2MaxFrameNumMinus4 := ⟨0, by decide⟩
    picOrderCnt := .type0 ⟨2, by decide⟩
    maxNumRefFrames := ⟨4, by decide⟩
    gapsInFrameNumValueAllowed := false
    picWidthInMbsMinus1 := ⟨119, by decide⟩
    picHeightInMapUnitsMinus1 := ⟨67, by decide⟩
    frameCoding := .frames
    direct8x8Inference := true
    frameCropping := some ⟨⟨0, by decide⟩, ⟨0, by decide⟩, ⟨0, by decide⟩, ⟨4, by decide⟩⟩ }

/-- The payload of that stream's NAL unit, its VUI included, before emulation prevention. -/
def rbsp1080 : Bytes :=
  [100, 0, 40, 172, 217, 64, 120, 2, 39, 229, 192, 68, 0, 0, 0, 4, 0, 0, 0, 200, 60, 96, 198, 88]

theorem parseSps_escape_1080 :
    parseSps [0x67, 100, 0, 40, 172, 217, 64, 120, 2, 39, 229, 192, 68, 0, 0, 3, 0, 4, 0, 0, 3, 0,
        200, 60, 96, 198, 88] =
      .ok { profileIdc := 100, levelIdc := 40, width := 1920, height := 1080 } := by
  have h := parseSps_escape sps1080 0x67 rbsp1080 ((bitsOf rbsp1080).drop 80) (by decide +kernel)
  have hesc : escape rbsp1080 = [100, 0, 40, 172, 217, 64, 120, 2, 39, 229, 192, 68, 0, 0, 3, 0, 4,
      0, 0, 3, 0, 200, 60, 96, 198, 88] := by decide +kernel
  rw [hesc] at h
  exact h

end DvrBridge.H264
