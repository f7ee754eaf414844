import DvrBridge.AccessUnits

/-! The parameter sets that a decoder finds in a keyframe when it joins there. -/
namespace DvrBridge
open H264

/-- The arguments of one `_on_frame` call. -/
structure FrameArgs where
  payload : Bytes
  ts90k : Nat
  keyframe : Bool
  deriving DecidableEq

/-- The NALs of the frames so far. -/
def receivedNals (frames : List FrameArgs) : List Bytes :=
  frames.flatMap fun f => frameNals f.payload

/-- A NAL of type `t` comes before the first slice. -/
def Leads (t : Int) (nals : List Bytes) : Prop :=
  ∃ n ∈ nals.takeWhile (fun n => !isVcl (nalType n)), nalType n = t

instance (t : Int) (nals : List Bytes) : Decidable (Leads t nals) :=
  inferInstanceAs (Decidable (∃ n ∈ nals.takeWhile _, nalType n = t))

/-- A decoder can start with this item. -/
def SetsLead (nals : List Bytes) : Prop := Leads nalSps nals ∧ Leads nalPps nals

instance (nals : List Bytes) : Decidable (SetsLead nals) :=
  inferInstanceAs (Decidable (_ ∧ _))

/-- A set of type `t` has been received. -/
def Received (t : Int) (nals : List Bytes) : Prop := ∃ n ∈ nals, nalType n = t

instance (t : Int) (nals : List Bytes) : Decidable (Received t nals) :=
  inferInstanceAs (Decidable (∃ n ∈ nals, nalType n = t))

/-- `P` of every keyframe at which both sets have been received, with the frames before it. -/
def AtKeyframes (P : List FrameArgs → FrameArgs → Prop) (frames : List FrameArgs) : Prop :=
  ∀ past f rest, frames = past ++ f :: rest → f.keyframe = true →
    Received nalSps (receivedNals (past ++ [f])) → Received nalPps (receivedNals (past ++ [f])) →
    P past f

theorem latest_eq_none_iff {t : Int} {nals : List Bytes} :
    latest t nals = none ↔ ¬ Received t nals := by
  simp [latest, Received]

theorem leads_insert {sps pps : Bytes} (nals : List Bytes) (hs : nalType sps = nalSps)
    (hp : nalType pps = nalPps) : SetsLead (sps :: pps :: nals) := by
  have hvs : isVcl (nalType sps) = false := by
    rw [hs]
    decide
  have hvp : isVcl (nalType pps) = false := by
    rw [hp]
    decide
  have htake : (sps :: pps :: nals).takeWhile (fun n => !isVcl (nalType n)) =
      sps :: pps :: nals.takeWhile (fun n => !isVcl (nalType n)) := by
    rw [List.takeWhile_cons_of_pos (by simp [hvs]), List.takeWhile_cons_of_pos (by simp [hvp])]
  rw [SetsLead, Leads, Leads, htake]
  exact ⟨⟨sps, by simp, hs⟩, ⟨pps, by simp, hp⟩⟩

namespace Stream

/-- The stream after a sequence of frames. -/
def onFrames (s : Stream) (frames : List FrameArgs) : Stream :=
  frames.foldl (fun s f => (s.onFrame f.payload f.ts90k f.keyframe).1) s

/-- The item that a stream makes of `f` after `past`. -/
def item (s : Stream) (past : List FrameArgs) (f : FrameArgs) : Option HubFrame :=
  ((s.onFrames past).onFrame f.payload f.ts90k f.keyframe).2.map (·.item)

/-- A stream that has just been made, whoever has subscribed since. -/
structure NoSets (s : Stream) : Prop where
  sps : s.sps = none
  pps : s.pps = none

/-- One frame's part in the caches. -/
theorem onFrame_sets (s : Stream) (f : FrameArgs) :
    (s.onFrame f.payload f.ts90k f.keyframe).1.sps =
        (latest nalSps (frameNals f.payload)).or s.sps ∧
      (s.onFrame f.payload f.ts90k f.keyframe).1.pps =
        (latest nalPps (frameNals f.payload)).or s.pps := by
  by_cases hn : frameNals f.payload = []
  · rw [onFrame_skipped _ _ _ _ hn, hn]
    exact ⟨rfl, rfl⟩
  · obtain ⟨item, -, -, -, he⟩ := onFrame_relayed s f.payload f.ts90k f.keyframe hn
    rw [he]
    exact ⟨cacheSet_eq _ _ _, cacheSet_eq _ _ _⟩

/-- The caches hold the last set of each kind. -/
theorem onFrames_sets {s : Stream} (hs : s.NoSets) (frames : List FrameArgs) :
    (s.onFrames frames).sps = latest nalSps (receivedNals frames) ∧
      (s.onFrames frames).pps = latest nalPps (receivedNals frames) := by
  induction frames using List.reverseRecOn with
  | nil => exact ⟨hs.sps, hs.pps⟩
  | append_singleton frames f ih =>
    have hstep : s.onFrames (frames ++ [f]) =
        ((s.onFrames frames).onFrame f.payload f.ts90k f.keyframe).1 := by
      rw [onFrames, List.foldl_append]
      rfl
    have hnals : receivedNals (frames ++ [f]) =
        receivedNals frames ++ frameNals f.payload := by
      simp [receivedNals]
    obtain ⟨h₁, h₂⟩ := onFrame_sets (s.onFrames frames) f
    rw [hstep, hnals, latest_append, latest_append, h₁, h₂, ih.1, ih.2]
    exact ⟨rfl, rfl⟩

/-- What goes in front of a keyframe when both sets are known. -/
theorem insertSets_cases {s : Stream} {past : List Bytes} {sps pps : Bytes} (nals : List Bytes)
    (hs : s.sps = latest nalSps past) (hp : s.pps = latest nalPps past)
    (hsps : latest nalSps past = some sps) (hpps : latest nalPps past = some pps) :
    s.insertSets true nals =
      if Received nalSps nals then nals else sps :: pps :: nals := by
  have htruthy {t : Int} {n : Bytes} (hn : latest t past = some n) (ht : t ≠ -1) :
      truthy (some n) = true := by
    cases n with
    | nil => exact absurd (nalType_of_latest hn).symm ht
    | cons b n => rfl
  have hts := htruthy hsps (by decide)
  have htp := htruthy hpps (by decide)
  rw [insertSets, hs, hp, hsps, hpps, hts, htp]
  by_cases hr : Received nalSps nals
  · have hany : nals.any (nalType · = nalSps) = true := by simpa [Received] using hr
    rw [if_pos hr, hany]
    rfl
  · have hany : nals.any (nalType · = nalSps) = false := by simpa [Received] using hr
    rw [if_neg hr, hany]
    rfl

/-- The item of a keyframe, once both sets have been received. -/
theorem setsLead_item_iff {s : Stream} (hs : s.NoSets) (past : List FrameArgs) {f : FrameArgs}
    (hk : f.keyframe = true) (hrs : Received nalSps (receivedNals (past ++ [f])))
    (hrp : Received nalPps (receivedNals (past ++ [f]))) :
    (∀ i, s.item past f = some i → SetsLead i.nals) ↔
      (Received nalSps (frameNals f.payload) → SetsLead (frameNals f.payload)) := by
  by_cases hn : frameNals f.payload = []
  · rw [item, onFrame_skipped _ _ _ _ hn, hn]
    simp [Received]
  · have hnals : receivedNals (past ++ [f]) = receivedNals past ++ frameNals f.payload := by
      simp [receivedNals]
    obtain ⟨sps, hsps⟩ := Option.ne_none_iff_exists'.mp (mt latest_eq_none_iff.mp (not_not.mpr hrs))
    obtain ⟨pps, hpps⟩ := Option.ne_none_iff_exists'.mp (mt latest_eq_none_iff.mp (not_not.mpr hrp))
    obtain ⟨i, -, -, hi, he⟩ :=
      onFrame_relayed (s.onFrames past) f.payload f.ts90k f.keyframe hn
    obtain ⟨h₁, h₂⟩ := onFrames_sets hs past
    have hcs : ((s.onFrames past).cacheSets (frameNals f.payload)).sps =
        latest nalSps (receivedNals (past ++ [f])) := by
      rw [hnals, latest_append, ← h₁]
      exact cacheSet_eq _ _ _
    have hcp : ((s.onFrames past).cacheSets (frameNals f.payload)).pps =
        latest nalPps (receivedNals (past ++ [f])) := by
      rw [hnals, latest_append, ← h₂]
      exact cacheSet_eq _ _ _
    rw [hk, insertSets_cases _ hcs hcp hsps hpps] at hi
    have hitem : s.item past f = some i := by
      rw [item, he]
      rfl
    simp only [hitem, Option.some.injEq, forall_eq']
    by_cases hr : Received nalSps (frameNals f.payload)
    · rw [if_pos hr] at hi
      simp only [hi, hr, forall_const]
    · rw [if_neg hr] at hi
      simp only [hi, hr, false_implies, iff_true]
      exact leads_insert _ (nalType_of_latest hsps) (nalType_of_latest hpps)

/-- Once both sets have been received, every keyframe's item starts with them exactly when every
keyframe that has an SPS of its own has both sets of its own before its first slice. -/
theorem setsLead_iff {s : Stream} (hs : s.NoSets) (frames : List FrameArgs) :
    AtKeyframes (fun past f => ∀ i, s.item past f = some i → SetsLead i.nals) frames ↔
      AtKeyframes (fun _ f => Received nalSps (frameNals f.payload) →
        SetsLead (frameNals f.payload)) frames := by
  constructor
  · intro h past f rest hf hk hrs hrp
    exact (setsLead_item_iff hs past hk hrs hrp).mp (h past f rest hf hk hrs hrp)
  · intro h past f rest hf hk hrs hrp
    exact (setsLead_item_iff hs past hk hrs hrp).mpr (h past f rest hf hk hrs hrp)

/-- A keyframe that repeats the SPS alone. -/
def halfSets : List FrameArgs :=
  [⟨[0, 0, 0, 1, 0x67, 0, 0, 0, 1, 0x68, 0, 0, 0, 1, 0x65], 0, true⟩,
    ⟨[0, 0, 0, 1, 0x67, 0, 0, 0, 1, 0x65], 3600, true⟩]

theorem setsLead_iff_halfSets :
    AtKeyframes (fun past f => ∀ i, ({} : Stream).item past f = some i → SetsLead i.nals) halfSets ↔
      AtKeyframes (fun _ f => Received nalSps (frameNals f.payload) →
        SetsLead (frameNals f.payload)) halfSets :=
  setsLead_iff ⟨rfl, rfl⟩ halfSets

/-- It is relayed without a PPS. -/
theorem not_setsLead :
    ¬ AtKeyframes (fun past f => ∀ i, ({} : Stream).item past f = some i → SetsLead i.nals)
      halfSets := by
  intro h
  have hitem := h [halfSets[0]] halfSets[1] [] rfl rfl (by decide) (by decide) _ rfl
  revert hitem
  decide

end Stream
end DvrBridge
