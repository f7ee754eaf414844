import DvrBridge.ExpGolomb
import Mathlib.Algebra.Ring.Int.Defs

/-! The sequence parameter set as the standard defines it (H.264, 7.3.2.1.1 and 7.4.2.1.1): a syntax
tree that holds valid values only, its bits, and the size of the picture. -/
namespace DvrBridge.H264

/-- The values of `ue(v)` fields. -/
structure Ue where
  val : Nat
  le : val ≤ 2 ^ 32 - 2

/-- The values of `se(v)` fields. -/
structure Se where
  val : Int
  bounds : -(2 ^ 31 - 1) ≤ val ∧ val ≤ 2 ^ 31 - 1

def Ue.code (v : Ue) : List Bool := ueCode v.val

def Se.code (x : Se) : List Bool := seCode x.val

/-- `nextScale` after a `delta_scale`. -/
def nextScale (last delta : Int) : Int := (last + delta + 256) % 256

/-- The coded part of a scaling list with `n` entries to go: a `nextScale` of zero ends it. -/
inductive ScalingList : Nat → Int → Type where
  | full (last : Int) : ScalingList 0 last
  | stop {n : Nat} {last : Int} (delta : Int) (range : -128 ≤ delta ∧ delta ≤ 127)
      (ends : nextScale last delta = 0) : ScalingList (n + 1) last
  | entry {n : Nat} {last : Int} (delta : Int) (range : -128 ≤ delta ∧ delta ≤ 127)
      (goes : nextScale last delta ≠ 0) (rest : ScalingList n (nextScale last delta)) :
      ScalingList (n + 1) last

def ScalingList.code : {n : Nat} → {last : Int} → ScalingList n last → List Bool
  | _, _, .full _ => []
  | _, _, .stop delta _ _ => seCode delta
  | _, _, .entry delta _ _ rest => seCode delta ++ rest.code

/-- Six 4x4 lists come first. -/
def listSize (i : Nat) : Nat := if i < 6 then 16 else 64

abbrev ScalingMatrix := (i : Nat) → Option (ScalingList (listSize i) 8)

/-- `seq_scaling_list_present_flag` and the list. -/
def ScalingMatrix.listCode (m : ScalingMatrix) (i : Nat) : List Bool :=
  match m i with
  | none => [false]
  | some l => [true] ++ l.code

inductive ChromaFormat where
  | monochrome
  | yuv420
  | yuv422
  | yuv444 (separateColourPlane : Bool)

namespace ChromaFormat

/-- `chroma_format_idc` -/
def idc : ChromaFormat → Nat
  | monochrome => 0
  | yuv420 => 1
  | yuv422 => 2
  | yuv444 _ => 3

def code (c : ChromaFormat) : List Bool :=
  ueCode c.idc ++
    match c with
    | yuv444 separate => [separate]
    | _ => []

/-- `ChromaArrayType` -/
def arrayType : ChromaFormat → Nat
  | yuv444 true => 0
  | c => c.idc

/-- `SubWidthC` and `SubHeightC` of Table 6-1 -/
def subWidthC : ChromaFormat → Int
  | yuv420 | yuv422 => 2
  | _ => 1

def subHeightC : ChromaFormat → Int
  | yuv420 => 2
  | _ => 1

def listCount : ChromaFormat → Nat
  | yuv444 _ => 12
  | _ => 8

end ChromaFormat

/-- The fields that only some profiles have. -/
structure HighFields where
  chromaFormat : ChromaFormat
  bitDepthLumaMinus8 : Ue
  bitDepthChromaMinus8 : Ue
  qpprimeYZeroTransformBypass : Bool
  scalingMatrix : Option ScalingMatrix

def matrixCode (lists : Nat) : Option ScalingMatrix → List Bool
  | none => [false]
  | some m => [true] ++ (List.range lists).flatMap m.listCode

def HighFields.code (f : HighFields) : List Bool :=
  f.chromaFormat.code ++ (f.bitDepthLumaMinus8.code ++ (f.bitDepthChromaMinus8.code ++
    ([f.qpprimeYZeroTransformBypass] ++ matrixCode f.chromaFormat.listCount f.scalingMatrix)))

inductive PicOrderCnt where
  | type0 (log2MaxPicOrderCntLsbMinus4 : Ue)
  | type1 (deltaPicOrderAlwaysZero : Bool) (offsetForNonRefPic offsetForTopToBottomField : Se)
      (offsetForRefFrame : List Se) (count : offsetForRefFrame.length ≤ 2 ^ 32 - 2)
  | type2

def PicOrderCnt.code : PicOrderCnt → List Bool
  | .type0 lsb => ueCode 0 ++ lsb.code
  | .type1 zero nonRef topToBottom refs _ =>
    ueCode 1 ++ ([zero] ++ (nonRef.code ++ (topToBottom.code ++
      (ueCode refs.length ++ refs.flatMap Se.code))))
  | .type2 => ueCode 2

/-- `frame_mbs_only_flag`, and `mb_adaptive_frame_field_flag` where fields are allowed. -/
inductive FrameCoding where
  | frames
  | fields (mbAdaptive : Bool)

namespace FrameCoding

def mbsOnly : FrameCoding → Bool
  | frames => true
  | fields _ => false

def adaptiveCode : FrameCoding → List Bool
  | frames => []
  | fields mbAdaptive => [mbAdaptive]

def code (f : FrameCoding) : List Bool := [f.mbsOnly] ++ f.adaptiveCode

/-- `2 - frame_mbs_only_flag` -/
def factor : FrameCoding → Int
  | frames => 1
  | fields _ => 2

end FrameCoding

structure FrameCropping where
  left : Ue
  right : Ue
  top : Ue
  bottom : Ue

def cropCode : Option FrameCropping → List Bool
  | none => [false]
  | some c => [true] ++ (c.left.code ++ (c.right.code ++ (c.top.code ++ c.bottom.code)))

/-- The profiles whose parameter sets have the fields of `HighFields`. -/
def HasHighFields (profileIdc : UInt8) : Prop :=
  profileIdc ∈ ([44, 83, 86, 100, 110, 118, 122, 128, 134, 135, 138, 139, 244] : List UInt8)

structure Sps where
  profileIdc : UInt8
  /-- the constraint flags and `reserved_zero_2bits` -/
  constraints : UInt8
  levelIdc : UInt8
  seqParameterSetId : Ue
  high : Option HighFields
  high_iff : high.isSome = true ↔ HasHighFields profileIdc
  log2MaxFrameNumMinus4 : Ue
  picOrderCnt : PicOrderCnt
  maxNumRefFrames : Ue
  gapsInFrameNumValueAllowed : Bool
  picWidthInMbsMinus1 : Ue
  picHeightInMapUnitsMinus1 : Ue
  frameCoding : FrameCoding
  direct8x8Inference : Bool
  frameCropping : Option FrameCropping

namespace Sps

/-- The bits up to `vui_parameters_present_flag`. -/
def code (s : Sps) : List Bool :=
  binary 8 s.profileIdc.toNat ++ (binary 8 s.constraints.toNat ++ (binary 8 s.levelIdc.toNat ++
    (s.seqParameterSetId.code ++ ((s.high.map HighFields.code).getD [] ++
    (s.log2MaxFrameNumMinus4.code ++ (s.picOrderCnt.code ++ (s.maxNumRefFrames.code ++
    ([s.gapsInFrameNumValueAllowed] ++ (s.picWidthInMbsMinus1.code ++
    (s.picHeightInMapUnitsMinus1.code ++ (s.frameCoding.code ++ ([s.direct8x8Inference] ++
    cropCode s.frameCropping))))))))))))

/-- 4:2:0 is inferred where the field is absent. -/
def chromaFormat (s : Sps) : ChromaFormat := (s.high.map (·.chromaFormat)).getD .yuv420

def cropUnitX (s : Sps) : Int :=
  if s.chromaFormat.arrayType = 0 then 1 else s.chromaFormat.subWidthC

def cropUnitY (s : Sps) : Int :=
  if s.chromaFormat.arrayType = 0 then s.frameCoding.factor
  else s.chromaFormat.subHeightC * s.frameCoding.factor

/-- `PicWidthInSamples` without the columns cropped off. -/
def width (s : Sps) : Int :=
  let picWidthInMbs : Int := s.picWidthInMbsMinus1.val + 1
  picWidthInMbs * 16 -
    (s.frameCropping.map fun c => s.cropUnitX * (c.left.val + c.right.val)).getD 0

def height (s : Sps) : Int :=
  let frameHeightInMbs : Int := s.frameCoding.factor * (s.picHeightInMapUnitsMinus1.val + 1)
  frameHeightInMbs * 16 -
    (s.frameCropping.map fun c => s.cropUnitY * (c.top.val + c.bottom.val)).getD 0

end Sps

/-- Emulation prevention (7.4.1): after two zeros a byte up to 3 comes behind a 3. A parameter set ends
with a stop bit, never with a zero byte. -/
def escapeFrom : Nat → Bytes → Bytes
  | _, [] => []
  | zeros, b :: bs =>
    if zeros = 2 ∧ b ≤ 3 then 3 :: b :: escapeFrom (if b = 0 then 1 else 0) bs
    else b :: escapeFrom (if b = 0 then zeros + 1 else 0) bs

def escape (rbsp : Bytes) : Bytes := escapeFrom 0 rbsp

end DvrBridge.H264
