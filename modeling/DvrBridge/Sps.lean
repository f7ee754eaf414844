import DvrBridge.BitReader
import DvrBridge.Search

/-! The SPS parser. -/
namespace DvrBridge.H264
open BitReader Search

def stripEmulationPrevention (rbsp : Bytes) : Bytes := replace [0, 0, 3] [0, 0] rbsp

structure SpsInfo where
  profileIdc : Nat
  levelIdc : Nat
  width : Int
  height : Int
  deriving DecidableEq

def highProfiles : List Nat := [100, 110, 122, 244, 44, 83, 86, 118, 128, 138, 139, 134, 135]

/-- A field that is read and not used. -/
def skip {α : Type} (p : Read α) : Read Unit := p >>= fun _ => pure ()

def skipIf {α : Type} (c : Bool) (p : Read α) : Read Unit := if c then skip p else pure ()

/-- The loop over the entries of a scaling list. -/
def scalingList : Nat → Int → Int → Read Unit
  | 0, _, _ => pure ()
  | n + 1, last, nxt => do
    let nxt ← if nxt ≠ 0 then se >>= fun d => pure ((last + d + 256) % 256) else pure nxt
    scalingList n (if nxt ≠ 0 then nxt else last) nxt

/-- The loop over the scaling lists, from the `i`-th on. -/
def scalingLists : Nat → Nat → Read Unit
  | 0, _ => pure ()
  | n + 1, i => do
    let present ← bit
    skipIf (present ≠ 0) (scalingList (if i < 6 then 16 else 64) 8 8)
    scalingLists n (i + 1)

/-- The fields of the high profiles; the result is `chroma_format_idc`. -/
def highFields : Read Nat := do
  let chromaFormatIdc ← ue
  skipIf (chromaFormatIdc = 3) bit
  skip ue
  skip ue
  skip bit
  let matrixPresent ← bit
  skipIf (matrixPresent ≠ 0) (scalingLists (if chromaFormatIdc ≠ 3 then 8 else 12) 0)
  pure chromaFormatIdc

def chromaFormat (profileIdc : Nat) : Read Nat :=
  if profileIdc ∈ highProfiles then highFields else pure 1

/-- The loop over the offsets of the reference frames. -/
def offsets : Nat → Read Unit
  | 0 => pure ()
  | n + 1 => se >>= fun _ => offsets n

def picOrderCnt : Read Unit := do
  let pocType ← ue
  if pocType = 0 then skip ue
  else if pocType = 1 then do
    skip bit
    skip se
    skip se
    let n ← ue
    offsets n
  else pure ()

structure Crop where
  l : Nat := 0
  r : Nat := 0
  t : Nat := 0
  b : Nat := 0
  deriving DecidableEq

def cropping : Read Crop := do
  let present ← bit
  if present ≠ 0 then do
    let l ← ue
    let r ← ue
    let t ← ue
    let b ← ue
    pure { l := l, r := r, t := t, b := b }
  else pure {}

/-- The arithmetic at the end of `parse_sps`. -/
def spsInfo (profileIdc levelIdc chromaFormatIdc picWidthInMbs picHeightInMapUnits : Nat)
    (frameMbsOnly : Bool) (crop : Crop) : SpsInfo :=
  let width : Int := picWidthInMbs * 16
  let height : Int := picHeightInMapUnits * 16 * (if frameMbsOnly then 1 else 2)
  let subW : Int := if chromaFormatIdc ∈ [1, 2] then 2 else 1
  let subH : Int := if chromaFormatIdc = 1 then 2 else 1
  let cropX := if chromaFormatIdc ≠ 0 then subW else 1
  let cropY :=
    if chromaFormatIdc ≠ 0 then subH * (if frameMbsOnly then 1 else 2)
    else if frameMbsOnly then 1 else 2
  { profileIdc := profileIdc
    levelIdc := levelIdc
    width := width - (crop.l + crop.r) * cropX
    height := height - (crop.t + crop.b) * cropY }

/-- `parse_sps` on the stripped payload. -/
def readSps : Read SpsInfo := do
  let profileIdc ← bits 8
  skip (bits 8)
  let levelIdc ← bits 8
  skip ue
  let chromaFormatIdc ← chromaFormat profileIdc
  skip ue
  picOrderCnt
  skip ue
  skip bit
  let widthMinus1 ← ue
  let heightMinus1 ← ue
  let frameMbsOnly ← bit
  skipIf (frameMbsOnly = 0) bit
  skip bit
  let crop ← cropping
  pure (spsInfo profileIdc levelIdc chromaFormatIdc (widthMinus1 + 1) (heightMinus1 + 1)
    (frameMbsOnly ≠ 0) crop)

def parseSps (sps : Bytes) : Except ReadError SpsInfo :=
  (readSps { data := stripEmulationPrevention (sps.drop 1) }).map (·.1)

end DvrBridge.H264
