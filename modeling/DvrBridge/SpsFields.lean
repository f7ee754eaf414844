import DvrBridge.Sps
import DvrBridge.SpsSyntax

/-! The parameter sets that the parser gets through: every field it reads is there, whatever its value
and whatever follows the cropping. -/
namespace DvrBridge.H264
open BitReader

/-- A scaling list whose deltas may be any `se(v)`, with `n` entries to go. -/
inductive Deltas : Nat → Int → Type where
  | full (last : Int) : Deltas 0 last
  | stop {n : Nat} {last : Int} (delta : Se) (ends : nextScale last delta.val = 0) :
      Deltas (n + 1) last
  | entry {n : Nat} {last : Int} (delta : Se) (goes : nextScale last delta.val ≠ 0)
      (rest : Deltas n (nextScale last delta.val)) : Deltas (n + 1) last

def Deltas.code : {n : Nat} → {last : Int} → Deltas n last → List Bool
  | _, _, .full _ => []
  | _, _, .stop delta _ => delta.code
  | _, _, .entry delta _ rest => delta.code ++ rest.code

/-- The `n` scaling lists from the `i`-th on. -/
inductive DeltaLists : Nat → Nat → Type where
  | nil (i : Nat) : DeltaLists 0 i
  | cons {n i : Nat} (list : Option (Deltas (listSize i) 8)) (rest : DeltaLists n (i + 1)) :
      DeltaLists (n + 1) i

/-- A flag and what it announces. -/
def optionCode {α : Type} (code : α → List Bool) : Option α → List Bool
  | none => [false]
  | some x => [true] ++ code x

def DeltaLists.code : {n i : Nat} → DeltaLists n i → List Bool
  | _, _, .nil _ => []
  | _, _, .cons list rest => optionCode Deltas.code list ++ rest.code

/-- The fields of `highFields`. -/
structure HighPart where
  chromaFormatIdc : Ue
  separateColourPlane : Option Bool
  separate_iff : separateColourPlane.isSome = decide (chromaFormatIdc.val = 3)
  bitDepthLumaMinus8 : Ue
  bitDepthChromaMinus8 : Ue
  qpprimeYZeroTransformBypass : Bool
  scalingMatrix : Option (DeltaLists (if chromaFormatIdc.val ≠ 3 then 8 else 12) 0)

def HighPart.code (f : HighPart) : List Bool :=
  f.chromaFormatIdc.code ++ ((f.separateColourPlane.map ([·])).getD [] ++ (f.bitDepthLumaMinus8.code ++
    (f.bitDepthChromaMinus8.code ++ ([f.qpprimeYZeroTransformBypass] ++
      optionCode DeltaLists.code f.scalingMatrix))))

/-- The fields of `picOrderCnt`. -/
inductive PocPart where
  | type0 (log2MaxPicOrderCntLsbMinus4 : Ue)
  | type1 (deltaPicOrderAlwaysZero : Bool) (offsetForNonRefPic offsetForTopToBottomField : Se)
      (offsetForRefFrame : List Se) (count : offsetForRefFrame.length ≤ 2 ^ 32 - 2)
  | other (pocType : Ue) (ge : 2 ≤ pocType.val)

def PocPart.code : PocPart → List Bool
  | .type0 lsb => ueCode 0 ++ lsb.code
  | .type1 zero nonRef topToBottom refs _ =>
    ueCode 1 ++ ([zero] ++ (nonRef.code ++ (topToBottom.code ++
      (ueCode refs.length ++ refs.flatMap Se.code))))
  | .other pocType _ => pocType.code

structure SpsFields where
  profileIdc : UInt8
  constraints : UInt8
  levelIdc : UInt8
  seqParameterSetId : Ue
  high : Option HighPart
  high_iff : high.isSome = true ↔ HasHighFields profileIdc
  log2MaxFrameNumMinus4 : Ue
  picOrderCnt : PocPart
  maxNumRefFrames : Ue
  gapsInFrameNumValueAllowed : Bool
  picWidthInMbsMinus1 : Ue
  picHeightInMapUnitsMinus1 : Ue
  frameCoding : FrameCoding
  direct8x8Inference : Bool
  frameCropping : Option FrameCropping

/-- The offsets as the parser keeps them. -/
def FrameCropping.crop (c : FrameCropping) : Crop :=
  { l := c.left.val, r := c.right.val, t := c.top.val, b := c.bottom.val }

namespace SpsFields

def code (f : SpsFields) : List Bool :=
  binary 8 f.profileIdc.toNat ++ (binary 8 f.constraints.toNat ++ (binary 8 f.levelIdc.toNat ++
    (f.seqParameterSetId.code ++ ((f.high.map HighPart.code).getD [] ++
    (f.log2MaxFrameNumMinus4.code ++ (f.picOrderCnt.code ++ (f.maxNumRefFrames.code ++
    ([f.gapsInFrameNumValueAllowed] ++ (f.picWidthInMbsMinus1.code ++
    (f.picHeightInMapUnitsMinus1.code ++ ([f.frameCoding.mbsOnly] ++ (f.frameCoding.adaptiveCode ++
    ([f.direct8x8Inference] ++ cropCode f.frameCropping)))))))))))))

def chromaFormatIdc (f : SpsFields) : Nat := (f.high.map (·.chromaFormatIdc.val)).getD 1

/-- What the parser makes of the fields. -/
def info (f : SpsFields) : SpsInfo :=
  spsInfo f.profileIdc.toNat f.levelIdc.toNat f.chromaFormatIdc (f.picWidthInMbsMinus1.val + 1)
    (f.picHeightInMapUnitsMinus1.val + 1) f.frameCoding.mbsOnly
    ((f.frameCropping.map FrameCropping.crop).getD {})

end SpsFields

/-! The fields: a reader gets through exactly the codes of its field. -/

theorem reads_ueField (v : Ue) : Reads left ue v.code v.val := reads_ue v.le

theorem parses_ue : Parses left ue Ue.code Ue.val := by
  have hrest (k : Fin 32) : Parses left
      (if 0 + k.val ≠ 0 then bits (0 + k.val) >>= fun rest => pure (1 <<< (0 + k.val) - 1 + rest)
        else (pure 0 : Read Nat) >>= fun rest => pure (1 <<< (0 + k.val) - 1 + rest))
      (fun x : Fin (2 ^ k.val) => binary k x) fun x => 2 ^ k.val - 1 + x := by
    rw [Nat.zero_add, Nat.one_shiftLeft]
    split
    · exact (parses_bits k).map _
    · rename_i hk
      refine ((Parses.pure 0).map fun rest => 2 ^ k.val - 1 + rest).reindex fun _ =>
        ⟨⟨0, Nat.two_pow_pos k⟩, rfl, ?_⟩
      rw [not_not.mp hk]
      rfl
  refine ((parses_zerosFrom 32 0).bind hrest).reindex ?_
  rintro ⟨k, x⟩
  have hpow : 2 ^ k.val ≤ 2 ^ 31 := Nat.pow_le_pow_right (by omega) (by omega)
  have hx := x.isLt
  exact ⟨⟨2 ^ k.val - 1 + x, by omega⟩, rfl, ueCode_of_lt hx⟩

theorem reads_seField (x : Se) : Reads left se x.code x.val := reads_se x.bounds

theorem parses_se : Parses left se Se.code Se.val := by
  have h := parses_ue.map fun k : Nat =>
    (if k % 2 ≠ 0 then ((k + 1) / 2 : Int) else -(k / 2))
  refine h.reindex fun v => ?_
  have hv := v.le
  refine ⟨⟨if v.val % 2 ≠ 0 then ((v.val + 1) / 2 : Int) else -(v.val / 2), ?_⟩, rfl, ?_⟩
  · split <;> omega
  · rw [Se.code, seCode, seNumber_of_number]
    rfl

/-- `bits 8` -/
theorem parses_byte :
    Parses left (bits 8) (fun b : UInt8 => binary 8 b.toNat) UInt8.toNat := by
  refine (parses_bits 8).reindex fun x => ⟨UInt8.ofNat x, ?_, ?_⟩
  · exact UInt8.toNat_ofNat_of_lt' x.isLt
  · rw [UInt8.toNat_ofNat_of_lt' x.isLt]

theorem Reads.skip {α : Type} {p : Read α} {c : List Bool} {a : α} (h : Reads left p c a) :
    Reads left (skip p) c () :=
  h.map fun _ => ()

theorem Parses.skip {α ι : Type} {p : Read α} {code : ι → List Bool} {value : ι → α}
    (h : Parses left p code value) : Parses left (skip p) code fun _ => () :=
  h.map fun _ => ()

theorem reads_skipIf {α ι : Type} {p : Read α} {code : ι → List Bool} {value : ι → α}
    (h : ∀ i, Reads left p (code i) (value i)) {c : Bool} (o : Option ι) (ho : o.isSome = c) :
    Reads left (skipIf c p) ((o.map code).getD []) () := by
  subst ho
  cases o with
  | none => exact Reads.pure ()
  | some i => exact Reads.skip (h i)

theorem parses_skipIf {α ι : Type} {p : Read α} {code : ι → List Bool} {value : ι → α}
    (h : Parses left p code value) (c : Bool) :
    Parses left (skipIf c p) (fun o : {o : Option ι // o.isSome = c} => (o.val.map code).getD [])
      fun _ => () := by
  cases c with
  | false => exact (Parses.pure ()).reindex fun _ => ⟨⟨none, rfl⟩, rfl, rfl⟩
  | true => exact (Parses.skip h).reindex fun i => ⟨⟨some i, rfl⟩, rfl, rfl⟩

/-- A flag, and the field that it announces. -/
def optional {α : Type} (p : Read α) : Read Unit := bit >>= fun b => skipIf (b ≠ 0) p

theorem reads_optional {α ι : Type} {p : Read α} {code : ι → List Bool} {value : ι → α}
    (h : ∀ i, Reads left p (code i) (value i)) (o : Option ι) :
    Reads left (optional p) (optionCode code o) () := by
  cases o with
  | none => exact (reads_bit false).bind (reads_skipIf h none rfl)
  | some i => exact (reads_bit true).bind (reads_skipIf h (some i) rfl)

theorem parses_optional {α ι : Type} {p : Read α} {code : ι → List Bool} {value : ι → α}
    (h : Parses left p code value) : Parses left (optional p) (optionCode code) fun _ => () := by
  refine (parses_bit.bind fun b => parses_skipIf h (b.toNat ≠ 0)).reindex ?_
  rintro ⟨b, o, ho⟩
  refine ⟨o, rfl, ?_⟩
  cases b with
  | false =>
    cases o with
    | none => rfl
    | some i => cases ho
  | true =>
    obtain ⟨i, rfl⟩ := Option.isSome_iff_exists.mp ho
    rfl

/-! The fields of the high profiles. -/

/-- After a `nextScale` of zero nothing more of the list is read. -/
theorem scalingList_ended (n : Nat) (last : Int) : scalingList n last 0 = pure () := by
  induction n generalizing last with
  | zero => rfl
  | succ n ih => exact ih last

theorem scalingList_succ {n : Nat} {last nxt : Int} (h : nxt ≠ 0) :
    scalingList (n + 1) last nxt = se >>= fun d =>
      if nextScale last d = 0 then pure ()
      else scalingList n (nextScale last d) (nextScale last d) := by
  rw [scalingList, if_pos h, bind_assoc]
  congr 1
  funext d
  rw [pure_bind]
  change scalingList n (if nextScale last d ≠ 0 then nextScale last d else last)
    (nextScale last d) = _
  by_cases hd : nextScale last d = 0
  · rw [if_pos hd, hd, scalingList_ended]
  · rw [if_pos hd, if_neg hd]

theorem reads_scalingList {n : Nat} {last : Int} (l : Deltas n last) {nxt : Int} (h : nxt ≠ 0) :
    Reads left (scalingList n last nxt) l.code () := by
  induction l generalizing nxt with
  | full last => exact Reads.pure ()
  | stop delta ends =>
    rw [scalingList_succ h, Deltas.code, ← List.append_nil delta.code]
    refine (reads_seField delta).bind ?_
    rw [if_pos ends]
    exact Reads.pure ()
  | entry delta goes rest ih =>
    rw [scalingList_succ h]
    refine (reads_seField delta).bind ?_
    rw [if_neg goes]
    exact ih goes

theorem parses_scalingList (n : Nat) {last nxt : Int} (h : nxt ≠ 0) :
    Parses left (scalingList n last nxt) (Deltas.code : Deltas n last → List Bool)
      fun _ => () := by
  induction n generalizing last nxt with
  | zero => exact (Parses.pure ()).reindex fun _ => ⟨.full last, rfl, rfl⟩
  | succ n ih =>
    rw [scalingList_succ h]
    refine parses_se.bind_cases fun d => ?_
    split
    · rename_i ends
      exact (Parses.pure ()).rest (fun _ => .stop d ends) fun _ => (List.append_nil _).symm
    · rename_i goes
      exact (ih goes).rest (.entry d goes) fun _ => rfl

theorem scalingLists_succ (n i : Nat) :
    scalingLists (n + 1) i =
      optional (scalingList (listSize i) 8 8) >>= fun _ => scalingLists n (i + 1) := by
  rw [optional, bind_assoc]
  rfl

theorem reads_scalingLists {n i : Nat} (ls : DeltaLists n i) :
    Reads left (scalingLists n i) ls.code () := by
  induction ls with
  | nil i => exact Reads.pure ()
  | cons list rest ih =>
    rw [scalingLists_succ]
    exact (reads_optional (fun l => reads_scalingList l (by decide)) list).bind ih

theorem parses_scalingLists (n i : Nat) :
    Parses left (scalingLists n i) (DeltaLists.code : DeltaLists n i → List Bool)
      fun _ => () := by
  induction n generalizing i with
  | zero => exact (Parses.pure ()).reindex fun _ => ⟨.nil i, rfl, rfl⟩
  | succ n ih =>
    rw [scalingLists_succ]
    refine ((parses_optional (parses_scalingList _ (by decide))).bind fun _ => ih (i + 1)).reindex ?_
    rintro ⟨list, rest⟩
    exact ⟨.cons list rest, rfl, rfl⟩

theorem highFields_eq :
    highFields = ue >>= fun idc => skipIf (idc = 3) bit >>= fun _ => skip ue >>= fun _ =>
      skip ue >>= fun _ => skip bit >>= fun _ =>
        optional (scalingLists (if idc ≠ 3 then 8 else 12) 0) >>= fun _ => pure idc := by
  simp only [optional, bind_assoc]
  rfl

theorem reads_highFields (f : HighPart) :
    Reads left highFields f.code f.chromaFormatIdc.val := by
  rw [highFields_eq]
  refine (reads_ueField f.chromaFormatIdc).bind ?_
  refine (reads_skipIf reads_bit f.separateColourPlane f.separate_iff).bind ?_
  refine (Reads.skip (reads_ueField f.bitDepthLumaMinus8)).bind ?_
  refine (Reads.skip (reads_ueField f.bitDepthChromaMinus8)).bind ?_
  refine (Reads.skip (reads_bit f.qpprimeYZeroTransformBypass)).bind ?_
  exact (reads_optional reads_scalingLists f.scalingMatrix).map fun _ => f.chromaFormatIdc.val

theorem parses_highFields :
    Parses left highFields HighPart.code (·.chromaFormatIdc.val) := by
  rw [highFields_eq]
  refine (parses_ue.bind fun idc => (parses_skipIf parses_bit (idc.val = 3)).bind fun _ =>
    (Parses.skip parses_ue).bind fun _ => (Parses.skip parses_ue).bind fun _ =>
      (Parses.skip parses_bit).bind fun _ =>
        (parses_optional (parses_scalingLists _ 0)).map fun _ => idc.val).reindex ?_
  rintro ⟨idc, ⟨separate, hs⟩, luma, chroma, bypass, matrix⟩
  exact ⟨⟨idc, separate, hs, luma, chroma, bypass, matrix⟩, rfl, rfl⟩

theorem mem_highProfiles_iff (p : UInt8) : p.toNat ∈ highProfiles ↔ HasHighFields p := by
  unfold HasHighFields highProfiles
  refine forall_byte (P := fun p => p.toNat ∈ _ ↔ p ∈ _) ?_ p
  decide

theorem reads_high (f : SpsFields) :
    Reads left (chromaFormat f.profileIdc.toNat) ((f.high.map HighPart.code).getD [])
      f.chromaFormatIdc := by
  have hh := f.high_iff
  unfold SpsFields.chromaFormatIdc chromaFormat
  cases hf : f.high with
  | none =>
    rw [if_neg]
    · exact Reads.pure 1
    · rw [mem_highProfiles_iff, ← hh, hf]
      exact Bool.false_ne_true
  | some high =>
    rw [if_pos]
    · exact reads_highFields high
    · rw [mem_highProfiles_iff, ← hh, hf]
      rfl

theorem parses_high (p : UInt8) :
    Parses left (chromaFormat p.toNat)
      (fun h : {h : Option HighPart // h.isSome = true ↔ HasHighFields p} =>
        (h.val.map HighPart.code).getD [])
      fun h => (h.val.map (·.chromaFormatIdc.val)).getD 1 := by
  unfold chromaFormat
  split
  · rename_i hp
    exact parses_highFields.reindex fun high =>
      ⟨⟨some high, iff_of_true rfl ((mem_highProfiles_iff p).mp hp)⟩, rfl, rfl⟩
  · rename_i hp
    refine (Parses.pure 1).reindex fun _ => ⟨⟨none, ?_⟩, rfl, rfl⟩
    rw [← mem_highProfiles_iff]
    exact iff_of_false Bool.false_ne_true hp

/-! The picture order count. -/

theorem reads_offsets (xs : List Se) :
    Reads left (offsets xs.length) (xs.flatMap Se.code) () :=
  Reads.forItems (Reads.pure ()) (fun _ => rfl) xs fun x _ => reads_seField x

theorem parses_offsets (n : Nat) :
    Parses left (offsets n) (fun xs : {xs : List Se // xs.length = n} => xs.val.flatMap Se.code)
      fun _ => () := by
  have h0 : offsets 0 = pure () := rfl
  exact Parses.forItems h0 (fun _ => rfl) parses_se n

theorem reads_picOrderCnt (p : PocPart) : Reads left picOrderCnt p.code () := by
  cases p with
  | type0 lsb =>
    exact (reads_ue (by decide)).bind (Reads.skip (reads_ueField lsb))
  | type1 zero nonRef topToBottom refs count =>
    refine (reads_ue (by decide)).bind ?_
    refine (Reads.skip (reads_bit zero)).bind ?_
    refine (Reads.skip (reads_seField nonRef)).bind ?_
    refine (Reads.skip (reads_seField topToBottom)).bind ?_
    exact (reads_ue count).bind (reads_offsets refs)
  | other pocType ge =>
    rw [PocPart.code, ← List.append_nil pocType.code]
    refine (reads_ueField pocType).bind ?_
    rw [if_neg (by omega), if_neg (by omega)]
    exact Reads.pure ()

theorem parses_picOrderCnt : Parses left picOrderCnt PocPart.code fun _ => () := by
  refine parses_ue.bind_cases fun pocType => ?_
  have hcode : pocType.code = ueCode pocType.val := rfl
  split
  · rename_i h0
    refine (Parses.skip parses_ue).rest .type0 fun _ => ?_
    rw [hcode, h0]
    rfl
  · split
    · rename_i h1
      refine ((Parses.skip parses_bit).bind fun _ => (Parses.skip parses_se).bind fun _ =>
        (Parses.skip parses_se).bind fun _ => parses_ue.bind fun n => parses_offsets n.val).reindex ?_
      rintro ⟨zero, nonRef, topToBottom, n, refs, hrefs⟩
      refine ⟨⟨_, .type1 zero nonRef topToBottom refs (hrefs ▸ n.le), ?_⟩, rfl, rfl⟩
      rw [hcode, h1, PocPart.code, hrefs]
      rfl
    · exact (Parses.pure ()).rest (fun _ => .other pocType (by omega))
        fun _ => (List.append_nil _).symm

/-! The frame's size. -/

theorem reads_adaptive (f : FrameCoding) :
    Reads left (skipIf (f.mbsOnly.toNat = 0) bit) f.adaptiveCode () := by
  cases f with
  | frames => exact Reads.pure ()
  | fields mbAdaptive => exact Reads.skip (reads_bit mbAdaptive)

theorem parses_adaptive (b : Bool) :
    Parses left (skipIf (b.toNat = 0) bit)
      (fun f : {f : FrameCoding // f.mbsOnly = b} => f.val.adaptiveCode) fun _ => () := by
  cases b with
  | false => exact (Parses.skip parses_bit).reindex fun m => ⟨⟨.fields m, rfl⟩, rfl, rfl⟩
  | true => exact (Parses.pure ()).reindex fun _ => ⟨⟨.frames, rfl⟩, rfl, rfl⟩

theorem reads_cropping (c : Option FrameCropping) :
    Reads left cropping (cropCode c) ((c.map FrameCropping.crop).getD {}) := by
  cases c with
  | none =>
    rw [cropCode, ← List.append_nil [false]]
    exact (reads_bit false).bind (Reads.pure ({} : Crop))
  | some c =>
    refine (reads_bit true).bind ?_
    refine (reads_ueField c.left).bind ?_
    refine (reads_ueField c.right).bind ?_
    refine (reads_ueField c.top).bind ?_
    exact (reads_ueField c.bottom).map _

theorem parses_cropping :
    Parses left cropping cropCode fun c => (c.map FrameCropping.crop).getD {} := by
  have hrest (present : Bool) : Parses left
      (if present.toNat ≠ 0 then
        ue >>= fun l => ue >>= fun r => ue >>= fun t => ue >>= fun b =>
          pure { l := l, r := r, t := t, b := b }
        else pure {})
      (fun c : {c : Option FrameCropping // c.isSome = present} => (cropCode c.val).tail)
      fun c => (c.val.map FrameCropping.crop).getD {} := by
    cases present with
    | false => exact (Parses.pure ({} : Crop)).reindex fun _ => ⟨⟨none, rfl⟩, rfl, rfl⟩
    | true =>
      refine (parses_ue.bind fun l => parses_ue.bind fun r => parses_ue.bind fun t =>
        parses_ue.map fun b => ({ l := l.val, r := r.val, t := t.val, b := b } : Crop)).reindex ?_
      rintro ⟨l, r, t, b⟩
      exact ⟨⟨some ⟨l, r, t, b⟩, rfl⟩, rfl, rfl⟩
  refine (parses_bit.bind hrest).reindex ?_
  rintro ⟨present, c, hc⟩
  refine ⟨c, rfl, ?_⟩
  subst hc
  cases c <;> rfl

/-! The whole parameter set. -/

/-- The arithmetic is on the bit that was read. -/
theorem SpsFields.info_eq (f : SpsFields) :
    f.info = spsInfo f.profileIdc.toNat f.levelIdc.toNat f.chromaFormatIdc
      (f.picWidthInMbsMinus1.val + 1) (f.picHeightInMapUnitsMinus1.val + 1)
      (f.frameCoding.mbsOnly.toNat ≠ 0) ((f.frameCropping.map FrameCropping.crop).getD {}) := by
  have honly : decide (f.frameCoding.mbsOnly.toNat ≠ 0) = f.frameCoding.mbsOnly := by
    cases f.frameCoding.mbsOnly <;> rfl
  rw [honly]
  rfl

theorem reads_fields (f : SpsFields) : Reads left readSps f.code f.info := by
  rw [SpsFields.info_eq]
  refine (reads_bits f.profileIdc.toNat_lt).bind ?_
  refine (Reads.skip (reads_bits f.constraints.toNat_lt)).bind ?_
  refine (reads_bits f.levelIdc.toNat_lt).bind ?_
  refine (Reads.skip (reads_ueField f.seqParameterSetId)).bind ?_
  refine (reads_high f).bind ?_
  refine (Reads.skip (reads_ueField f.log2MaxFrameNumMinus4)).bind ?_
  refine (reads_picOrderCnt f.picOrderCnt).bind ?_
  refine (Reads.skip (reads_ueField f.maxNumRefFrames)).bind ?_
  refine (Reads.skip (reads_bit f.gapsInFrameNumValueAllowed)).bind ?_
  refine (reads_ueField f.picWidthInMbsMinus1).bind ?_
  refine (reads_ueField f.picHeightInMapUnitsMinus1).bind ?_
  refine (reads_bit f.frameCoding.mbsOnly).bind ?_
  refine (reads_adaptive f.frameCoding).bind ?_
  refine (Reads.skip (reads_bit f.direct8x8Inference)).bind ?_
  exact (reads_cropping f.frameCropping).map _

theorem parses_fields : Parses left readSps SpsFields.code SpsFields.info := by
  refine (parses_byte.bind fun profile => (Parses.skip parses_byte).bind fun _ =>
    parses_byte.bind fun level => (Parses.skip parses_ue).bind fun _ =>
      (parses_high profile).bind fun high => (Parses.skip parses_ue).bind fun _ =>
        parses_picOrderCnt.bind fun _ => (Parses.skip parses_ue).bind fun _ =>
          (Parses.skip parses_bit).bind fun _ => parses_ue.bind fun w => parses_ue.bind fun h =>
            parses_bit.bind fun only => (parses_adaptive only).bind fun _ =>
              (Parses.skip parses_bit).bind fun _ => parses_cropping.map fun crop =>
                spsInfo profile.toNat level.toNat ((high.val.map (·.chromaFormatIdc.val)).getD 1)
                  (w.val + 1) (h.val + 1) (only.toNat ≠ 0) crop).reindex ?_
  rintro ⟨profile, constraints, level, id, ⟨high, hhigh⟩, frameNum, poc, refs, gaps, w, h, only,
    ⟨coding, hcoding⟩, direct, crop⟩
  subst hcoding
  exact ⟨{ profileIdc := profile, constraints := constraints, levelIdc := level,
           seqParameterSetId := id, high := high, high_iff := hhigh,
           log2MaxFrameNumMinus4 := frameNum, picOrderCnt := poc, maxNumRefFrames := refs,
           gapsInFrameNumValueAllowed := gaps, picWidthInMbsMinus1 := w,
           picHeightInMapUnitsMinus1 := h, frameCoding := coding,
           direct8x8Inference := direct, frameCropping := crop }, SpsFields.info_eq _, rfl⟩

/-- What of an SPS payload the parser looks at. -/
def spsBits (sps : Bytes) : List Bool := bitsOf (stripEmulationPrevention (sps.drop 1))

/-- All the fields up to the cropping are there. -/
def HoldsFields (sps : Bytes) : Prop := ∃ f : SpsFields, f.code <+: spsBits sps

theorem parseSps_eq_ok_iff (sps : Bytes) :
    (∃ info, parseSps sps = .ok info) ↔ HoldsFields sps := by
  have h := succeeds_iff reads_fields parses_fields { data := stripEmulationPrevention (sps.drop 1) }
  refine Iff.trans ?_ h
  unfold parseSps
  cases readSps { data := stripEmulationPrevention (sps.drop 1) } with
  | error e => simp [Except.map]
  | ok r => exact iff_of_true ⟨r.1, rfl⟩ ⟨r.1, r.2, rfl⟩

end DvrBridge.H264
