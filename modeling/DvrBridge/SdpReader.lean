import DvrBridge.Base64
import DvrBridge.RtspClean

/-! What a client reads from the description of a stream. -/
namespace DvrBridge
open PyText

structure SdpView where
  name : Str
  /-- the bytes of `profile-level-id` -/
  profile : Bytes
  sets : List Bytes
  dimensions : Option (Nat × Nat)
  deriving DecidableEq

def sdpLines (s : Str) : List Str := (s.splitOnP (· = '\n')).map (rstripChar '\r')

/-- What follows `key` in the first line that begins with it. -/
def sdpAttr (key : Str) (lines : List Str) : Option Str :=
  lines.findSome? fun l => if key.isPrefixOf l then some (l.drop key.length) else none

/-- The parameters of a format, by name. -/
def fmtpParams (s : Str) : List (Str × Str) :=
  ((partition ' ' s).2.splitOnP (· = ';')).map (partition '=')

def hexDigit (c : Char) : Option Nat :=
  if '0' ≤ c ∧ c ≤ '9' then some (c.toNat - 48)
  else if 'a' ≤ c ∧ c ≤ 'f' then some (c.toNat - 87)
  else none

def hexDecode : Str → Option Bytes
  | [] => some []
  | a :: b :: s =>
    (hexDigit a).bind fun x => (hexDigit b).bind fun y =>
      (hexDecode s).map (UInt8.ofNat (x * 16 + y) :: ·)
  | _ => none

def readDimensions (s : Str) : Nat × Nat :=
  let (w, h) := partition ',' s
  (Nat.ofDigitChars 10 w 0, Nat.ofDigitChars 10 h 0)

def readSdp (s : Str) : Option SdpView :=
  let lines := sdpLines s
  (sdpAttr "s=".toList lines).bind fun name =>
  (sdpAttr "a=fmtp:".toList lines).bind fun format =>
  ((fmtpParams format).lookup "profile-level-id".toList).bind fun level =>
  ((fmtpParams format).lookup "sprop-parameter-sets".toList).bind fun sprop =>
  (hexDecode level).bind fun profile =>
  ((sprop.splitOnP (· = ',')).mapM b64decode).map fun sets =>
    { name := name
      profile := profile
      sets := sets
      dimensions := (sdpAttr "a=x-dimensions:".toList lines).map readDimensions }

/-! The lines. -/

/-- Without the characters that end lines. -/
def Inline (s : Str) : Prop := '\r' ∉ s ∧ '\n' ∉ s

instance (s : Str) : Decidable (Inline s) := inferInstanceAs (Decidable (_ ∧ _))

theorem Inline.append {s t : Str} (hs : Inline s) (ht : Inline t) : Inline (s ++ t) :=
  ⟨List.not_mem_append hs.1 ht.1, List.not_mem_append hs.2 ht.2⟩

theorem inline_b64encode (bs : Bytes) : Inline (b64encode bs) :=
  ⟨not_mem_b64encode (by decide) bs, not_mem_b64encode (by decide) bs⟩

theorem digitChar_ne {n : Nat} (h : n < 16) : Nat.digitChar n ∉ ['\r', '\n', ';', ' '] := by
  have hall : ∀ n < 16, Nat.digitChar n ∉ ['\r', '\n', ';', ' '] := by decide
  exact hall n h

theorem not_mem_hex {c : Char} (hc : c ∈ ['\r', '\n', ';', ' ']) (bs : Bytes) : c ∉ hex bs := by
  intro hm
  obtain ⟨b, -, hm⟩ := List.mem_flatMap.mp hm
  have hb := b.toNat_lt
  simp only [List.mem_cons, List.not_mem_nil, or_false] at hm
  rcases hm with rfl | rfl
  · exact digitChar_ne (by omega) hc
  · exact digitChar_ne (by omega) hc

theorem inline_hex (bs : Bytes) : Inline (hex bs) :=
  ⟨not_mem_hex (by decide) bs, not_mem_hex (by decide) bs⟩

theorem inline_decimal (n : Nat) : Inline (decimal n) :=
  ⟨fun h => by simpa using decimal_isDigit h, fun h => by simpa using decimal_isDigit h⟩

/-- Lines are read back. -/
theorem sdpLines_flatMap {ls : List Str} (h : ∀ l ∈ ls, Inline l) :
    sdpLines (ls.flatMap (· ++ crlf)) = ls ++ [[]] := by
  induction ls with
  | nil => rfl
  | cons l ls ih =>
    obtain ⟨hl, hls⟩ := List.forall_mem_cons.mp h
    have hcut : ((l :: ls).flatMap (· ++ crlf)).splitOnP (· = '\n') =
        (l ++ ['\r']) :: (ls.flatMap (· ++ crlf)).splitOnP (· = '\n') := by
      have heq : (l :: ls).flatMap (· ++ crlf) = (l ++ ['\r']) ++ '\n' :: ls.flatMap (· ++ crlf) := by
        simp [crlf]
      rw [heq]
      refine List.splitOnP_append_cons_of_forall_mem (fun c hc => ?_) '\n' (by simp) _
      rcases List.mem_append.mp hc with hc | hc
      · exact decide_eq_false fun he => hl.2 (he ▸ hc)
      · rw [List.mem_singleton] at hc
        simp [hc]
    have hstrip : rstripChar '\r' (l ++ ['\r']) = l := by
      rw [rstripChar, List.rdropWhile_concat_pos _ _ _ (by simp), List.rdropWhile_eq_self_iff]
      intro hne hlast
      exact hl.1 (of_decide_eq_true hlast ▸ List.getLast_mem hne)
    rw [sdpLines, hcut, List.map_cons, hstrip, List.cons_append, ← ih hls, sdpLines]

theorem sdpAttr_skip {key l : Str} (h : key.isPrefixOf l = false) (ls : List Str) :
    sdpAttr key (l :: ls) = sdpAttr key ls := by
  rw [sdpAttr, List.findSome?_cons, h]
  rfl

theorem sdpAttr_found (key v : Str) (ls : List Str) : sdpAttr key ((key ++ v) :: ls) = some v := by
  have h : key.isPrefixOf (key ++ v) = true := List.isPrefixOf_iff_prefix.mpr ⟨v, rfl⟩
  rw [sdpAttr, List.findSome?_cons, h, if_pos rfl, List.drop_left]

/-! The values. -/

theorem hexDigit_digitChar {n : Nat} (h : n < 16) : hexDigit (Nat.digitChar n) = some n := by
  have hall : ∀ n < 16, hexDigit (Nat.digitChar n) = some n := by decide
  exact hall n h

theorem hexDecode_hex (bs : Bytes) : hexDecode (hex bs) = some bs := by
  induction bs with
  | nil => rfl
  | cons b bs ih =>
    have hb := b.toNat_lt
    have hcons : hex (b :: bs) =
        Nat.digitChar (b.toNat / 16) :: Nat.digitChar (b.toNat % 16) :: hex bs := by
      simp [hex]
    have hnum : UInt8.ofNat (b.toNat / 16 * 16 + b.toNat % 16) = b := by
      rw [Nat.div_add_mod']
      exact UInt8.ofNat_toNat
    rw [hcons, hexDecode, hexDigit_digitChar (by omega), hexDigit_digitChar (by omega),
      Option.bind_some, Option.bind_some, ih, Option.map_some, hnum]

/-! The description. -/

def format (sps pps : Bytes) : Str :=
  "96".toList ++ " packetization-mode=1;".toList ++ "profile-level-id=".toList ++
    profileLevelId sps ++ ";sprop-parameter-sets=".toList ++ (b64encode sps ++ [','] ++ b64encode pps)

/-- The size of the picture, when both its numbers are there. -/
def dimensionsOf (width height : Option Nat) : Option (Nat × Nat) :=
  (nonzero width).bind fun w => (nonzero height).map fun h => (w, h)

def dimensionLines (width height : Option Nat) : List Str :=
  match dimensionsOf width height with
  | some (w, h) => ["a=x-dimensions:".toList ++ decimal w ++ [','] ++ decimal h]
  | none => []

def descriptionLines (name : Str) (sps pps : Bytes) (width height : Option Nat) : List Str :=
  ["v=0".toList, "o=- 0 0 IN IP4 0.0.0.0".toList, "s=".toList ++ name, "t=0 0".toList,
    "m=video 0 RTP/AVP 96".toList, "c=IN IP4 0.0.0.0".toList, "a=rtpmap:96 H264/90000".toList,
    "a=fmtp:".toList ++ format sps pps] ++ dimensionLines width height ++
    ["a=control:track0".toList, "a=recvonly".toList]

theorem buildSdp_eq (name : Str) (sps pps : Bytes) (width height : Option Nat) :
    buildSdp name sps pps width height =
      (descriptionLines name sps pps width height).flatMap (· ++ crlf) := by
  have hformat : "a=fmtp:".toList ++ "96".toList ++ " packetization-mode=1;".toList ++
      "profile-level-id=".toList ++ profileLevelId sps ++ ";sprop-parameter-sets=".toList ++
        (b64encode sps ++ [','] ++ b64encode pps) = "a=fmtp:".toList ++ format sps pps := by
    simp only [format, List.append_assoc]
  simp only [buildSdp, hformat, descriptionLines, dimensionLines, dimensionsOf]
  cases nonzero width with
  | none => rfl
  | some w => cases nonzero height <;> rfl

theorem inline_descriptionLines {name : Str} (hn : Inline name) (sps pps : Bytes)
    (width height : Option Nat) :
    ∀ l ∈ descriptionLines name sps pps width height, Inline l := by
  have hformat : Inline (format sps pps) := by
    refine Inline.append (Inline.append (Inline.append (by decide) (inline_hex _)) (by decide)) ?_
    exact Inline.append (Inline.append (inline_b64encode sps) (by decide)) (inline_b64encode pps)
  have hdim : ∀ l ∈ dimensionLines width height, Inline l := by
    intro l hl
    unfold dimensionLines at hl
    split at hl
    · rename_i w h _
      rw [List.mem_singleton] at hl
      rw [hl]
      exact Inline.append (Inline.append (Inline.append (by decide) (inline_decimal w)) (by decide))
        (inline_decimal h)
    · cases hl
  intro l hl
  simp only [descriptionLines, List.mem_append, List.mem_cons, List.not_mem_nil, or_false] at hl
  rcases hl with ((rfl | rfl | rfl | rfl | rfl | rfl | rfl | rfl) | hl) | rfl | rfl
  · decide
  · decide
  · exact Inline.append (by decide) hn
  · decide
  · decide
  · decide
  · decide
  · exact Inline.append (by decide) hformat
  · exact hdim l hl
  · decide
  · decide

theorem fmtpParams_format (sps pps : Bytes) : fmtpParams (format sps pps) =
    [("packetization-mode".toList, "1".toList), ("profile-level-id".toList, profileLevelId sps),
      ("sprop-parameter-sets".toList, b64encode sps ++ ',' :: b64encode pps)] := by
  have hsep {s : Str} (hs : ';' ∉ s) : ∀ c ∈ s, decide (c = ';') = false := fun c hc =>
    decide_eq_false fun he => hs (he ▸ hc)
  have hlevel : ';' ∉ "profile-level-id=".toList ++ profileLevelId sps :=
    List.not_mem_append (by decide) (not_mem_hex (by decide) _)
  have hsprop : ';' ∉ "sprop-parameter-sets=".toList ++ (b64encode sps ++ ',' :: b64encode pps) := by
    refine List.not_mem_append (by decide) (List.not_mem_append ?_ ?_)
    · exact not_mem_b64encode (by decide) sps
    · exact fun hm => not_mem_b64encode (by decide) pps
        ((List.mem_cons.mp hm).resolve_left (by decide))
  have hspace : partition ' ' (format sps pps) = ("96".toList, "packetization-mode=1".toList ++
      ';' :: ("profile-level-id=".toList ++ profileLevelId sps ++
        ';' :: ("sprop-parameter-sets=".toList ++ (b64encode sps ++ ',' :: b64encode pps)))) := by
    rw [← partition_cons (c := ' ') (by decide)]
    simp [format]
  rw [fmtpParams, hspace, List.splitOnP_append_cons_of_forall_mem (hsep (by decide)) _ (by simp),
    List.splitOnP_append_cons_of_forall_mem (hsep hlevel) _ (by simp),
    List.splitOnP_eq_singleton (hsep hsprop)]
  have hmode : partition '=' "packetization-mode=1".toList =
      ("packetization-mode".toList, "1".toList) := by decide
  have hlevel' : partition '=' ("profile-level-id=".toList ++ profileLevelId sps) =
      ("profile-level-id".toList, profileLevelId sps) :=
    partition_cons (k := "profile-level-id".toList) (by decide) _
  have hsprop' : partition '=' ("sprop-parameter-sets=".toList ++
      (b64encode sps ++ ',' :: b64encode pps)) =
        ("sprop-parameter-sets".toList, b64encode sps ++ ',' :: b64encode pps) :=
    partition_cons (k := "sprop-parameter-sets".toList) (by decide) _
  simp only [List.map_cons, List.map_nil, hmode, hlevel', hsprop']

/-- What a client reads is what the description was built from. -/
theorem readSdp_buildSdp (name : Str) (hn : Inline name) (sps pps : Bytes)
    (width height : Option Nat) :
    readSdp (buildSdp name sps pps width height) =
      some { name := name
             profile := (sps.drop 1).take 3
             sets := [sps, pps]
             dimensions := dimensionsOf width height } := by
  have hlines := sdpLines_flatMap (inline_descriptionLines hn sps pps width height)
  rw [← buildSdp_eq] at hlines
  have hname : sdpAttr "s=".toList (sdpLines (buildSdp name sps pps width height)) = some name := by
    rw [hlines, descriptionLines]
    simp only [List.cons_append, List.nil_append]
    rw [sdpAttr_skip rfl, sdpAttr_skip rfl, sdpAttr_found]
  have hformat : sdpAttr "a=fmtp:".toList (sdpLines (buildSdp name sps pps width height)) =
      some (format sps pps) := by
    rw [hlines, descriptionLines]
    simp only [List.cons_append, List.nil_append]
    rw [sdpAttr_skip rfl, sdpAttr_skip rfl, sdpAttr_skip rfl, sdpAttr_skip rfl, sdpAttr_skip rfl,
      sdpAttr_skip rfl, sdpAttr_skip rfl, sdpAttr_found]
  have hdim : (sdpAttr "a=x-dimensions:".toList
      (sdpLines (buildSdp name sps pps width height))).map readDimensions =
        dimensionsOf width height := by
    have hskip (ls : List Str) : sdpAttr "a=x-dimensions:".toList (["v=0".toList,
        "o=- 0 0 IN IP4 0.0.0.0".toList, "s=".toList ++ name, "t=0 0".toList,
        "m=video 0 RTP/AVP 96".toList, "c=IN IP4 0.0.0.0".toList, "a=rtpmap:96 H264/90000".toList,
        "a=fmtp:".toList ++ format sps pps] ++ ls) = sdpAttr "a=x-dimensions:".toList ls := by
      simp only [List.cons_append, List.nil_append]
      rw [sdpAttr_skip rfl, sdpAttr_skip rfl, sdpAttr_skip rfl, sdpAttr_skip rfl, sdpAttr_skip rfl,
        sdpAttr_skip rfl, sdpAttr_skip rfl, sdpAttr_skip rfl]
    rw [hlines, descriptionLines, List.append_assoc, List.append_assoc, hskip, dimensionLines]
    cases hd : dimensionsOf width height with
    | none => rfl
    | some d =>
      obtain ⟨w, h⟩ := d
      have hcomma : ',' ∉ decimal w := fun hm => by simpa using decimal_isDigit hm
      simp only [List.append_assoc, List.cons_append, List.nil_append]
      rw [sdpAttr_found, Option.map_some, readDimensions, partition_cons hcomma]
      simp only [ofDigitChars_decimal]
  have hsets : ((b64encode sps ++ ',' :: b64encode pps).splitOnP (· = ',')).mapM b64decode =
      some [sps, pps] := by
    have hsep (bs : Bytes) : ∀ c ∈ b64encode bs, decide (c = ',') = false := fun c hc =>
      decide_eq_false fun he => not_mem_b64encode (by decide) bs (he ▸ hc)
    rw [List.splitOnP_append_cons_of_forall_mem (hsep sps) _ (by simp),
      List.splitOnP_eq_singleton (hsep pps)]
    simp [b64decode_encode]
  have hlevel : (fmtpParams (format sps pps)).lookup "profile-level-id".toList =
      some (profileLevelId sps) := by
    rw [fmtpParams_format]
    rfl
  have hsprop : (fmtpParams (format sps pps)).lookup "sprop-parameter-sets".toList =
      some (b64encode sps ++ ',' :: b64encode pps) := by
    rw [fmtpParams_format]
    rfl
  have hprofile : hexDecode (profileLevelId sps) = some ((sps.drop 1).take 3) := hexDecode_hex _
  rw [readSdp]
  simp only [hname, hformat, hlevel, hsprop, hprofile, hsets, hdim, Option.bind_some,
    Option.map_some]

end DvrBridge
