import DvrBridge.HubSteps
import DvrBridge.RtpDepacketizer

/-! What the stream makes of the frames that it relays: each frame's own NALs, with parameter sets
in front of some keyframes. -/
namespace DvrBridge
open H264

/-- The last NAL of type `t`. -/
def latest (t : Int) (nals : List Bytes) : Option Bytes := (nals.filter (nalType · = t)).getLast?

/-- What is sent of frame `f` when `past` are the NALs of the frames before it. -/
inductive AccessUnit (past : List Bytes) (f : VideoFrame) : List Bytes → Prop
  | own : AccessUnit past f (frameNals f.payload)
  | withSets {sps pps : Bytes} : f.keyframe = true →
      (∀ n ∈ frameNals f.payload, nalType n ≠ nalSps) →
      latest nalSps (past ++ frameNals f.payload) = some sps →
      latest nalPps (past ++ frameNals f.payload) = some pps →
      AccessUnit past f (sps :: pps :: frameNals f.payload)

/-- The items of a sequence of frames, each of which has a NAL. -/
inductive Relays : List Bytes → List VideoFrame → List HubFrame → Prop
  | nil {past : List Bytes} : Relays past [] []
  | cons {past : List Bytes} {f : VideoFrame} {item : HubFrame} {fs : List VideoFrame}
      {items : List HubFrame} : frameNals f.payload ≠ [] → item.keyframe = f.keyframe →
      AccessUnit past f item.nals → Relays (past ++ frameNals f.payload) fs items →
      Relays past (f :: fs) (item :: items)

/-- The NALs of some frames. -/
def nalsOf (fs : List VideoFrame) : List Bytes := fs.flatMap fun f => frameNals f.payload

theorem latest_append (t : Int) (a b : List Bytes) :
    latest t (a ++ b) = (latest t b).or (latest t a) := by
  rw [latest, List.filter_append, List.getLast?_append]
  rfl

theorem nalType_of_latest {t : Int} {nals : List Bytes} {n : Bytes}
    (h : latest t nals = some n) : nalType n = t := by
  have := List.mem_of_getLast? h
  simpa using (List.mem_filter.mp this).2

namespace Relays
variable {past : List Bytes} {fs : List VideoFrame} {items : List HubFrame}

theorem snoc (h : Relays past fs items) {f : VideoFrame} {item : HubFrame}
    (hn : frameNals f.payload ≠ []) (hk : item.keyframe = f.keyframe)
    (hu : AccessUnit (past ++ nalsOf fs) f item.nals) :
    Relays past (fs ++ [f]) (items ++ [item]) := by
  induction h with
  | nil =>
    rw [nalsOf, List.flatMap_nil, List.append_nil] at hu
    exact .cons hn hk hu .nil
  | cons hn' hk' hu' _ ih =>
    rw [nalsOf, List.flatMap_cons, ← List.append_assoc] at hu
    exact .cons hn' hk' hu' (ih hu)

/-- From the first keyframe on. -/
theorem fromKey (h : Relays past fs items) :
    Relays (past ++ nalsOf (fs.takeWhile fun f => !f.keyframe))
      (fs.dropWhile fun f => !f.keyframe) (items.dropWhile fun item => !item.keyframe) := by
  induction h with
  | nil => exact .nil
  | @cons past f item fs items hn hk hu hrest ih =>
    cases hf : f.keyframe with
    | true =>
      rw [List.takeWhile_cons_of_neg (by simp [hf]), List.dropWhile_cons_of_neg (by simp [hf]),
        List.dropWhile_cons_of_neg (by simp [hk, hf]), nalsOf, List.flatMap_nil, List.append_nil]
      exact .cons hn hk hu hrest
    | false =>
      rw [List.takeWhile_cons_of_pos (by simp [hf]), List.dropWhile_cons_of_pos (by simp [hf]),
        List.dropWhile_cons_of_pos (by simp [hk, hf]), nalsOf, List.flatMap_cons,
        ← List.append_assoc]
      exact ih

end Relays

/-- The NALs of a frame are of the types that have a meaning of their own. -/
def VideoFrame.Proper (f : VideoFrame) : Prop :=
  ∀ n ∈ frameNals f.payload, 1 ≤ nalType n ∧ nalType n ≤ 23

theorem AccessUnit.sendable {past : List Bytes} {f : VideoFrame} {nals : List Bytes}
    (h : AccessUnit past f nals) (hf : f.Proper) : ∀ n ∈ nals, Packetizer.Sendable n := by
  have hown : ∀ n ∈ frameNals f.payload, Packetizer.Sendable n := by
    intro n hn
    obtain ⟨-, h23⟩ := hf n hn
    have hne : n ≠ [] := by simpa using (List.mem_filter.mp hn).2
    exact ⟨hne, by omega⟩
  have hset {t : Int} {s : Bytes} (hs : nalType s = t) (ht : 0 ≤ t ∧ t ≠ 28) :
      Packetizer.Sendable s := by
    refine ⟨?_, by omega⟩
    rintro rfl
    have hnil : nalType [] = -1 := rfl
    omega
  cases h with
  | own => exact hown
  | withSets _ _ hs hp =>
    intro n hn
    rcases List.mem_cons.mp hn with rfl | hn
    · exact hset (nalType_of_latest hs) (by decide)
    · rcases List.mem_cons.mp hn with rfl | hn
      · exact hset (nalType_of_latest hp) (by decide)
      · exact hown n hn

theorem AccessUnit.ne_nil {past : List Bytes} {f : VideoFrame} {nals : List Bytes}
    (h : AccessUnit past f nals) (hf : frameNals f.payload ≠ []) : nals ≠ [] := by
  cases h with
  | own => exact hf
  | withSets => exact List.cons_ne_nil _ _

/-- Every item can be sent and received. -/
theorem Relays.sendable {past : List Bytes} {fs : List VideoFrame} {items : List HubFrame}
    (h : Relays past fs items) (hf : ∀ f ∈ fs, f.Proper) :
    ∀ item ∈ items, item.nals ≠ [] ∧ ∀ n ∈ item.nals, Packetizer.Sendable n := by
  induction h with
  | nil => simp
  | cons hn _ hu _ ih =>
    intro item hi
    rcases List.mem_cons.mp hi with rfl | hi
    · exact ⟨hu.ne_nil hn, hu.sendable (hf _ (List.mem_cons_self ..))⟩
    · exact ih (fun g hg => hf g (List.mem_cons_of_mem _ hg)) item hi

namespace Stream

theorem cacheSet_eq (t : Int) (cached : Option Bytes) (nals : List Bytes) :
    cacheSet t cached nals = (latest t nals).or cached := by
  induction nals generalizing cached with
  | nil => rfl
  | cons n nals ih =>
    have hcons : latest t (n :: nals) = (latest t nals).or (latest t [n]) :=
      latest_append t [n] nals
    have hone : latest t [n] = if nalType n = t then some n else none := by
      by_cases hn : nalType n = t <;> simp [latest, hn]
    have hstep : cacheSet t cached (n :: nals) =
        cacheSet t (if nalType n = t then some n else cached) nals := rfl
    rw [hstep, ih, hcons, hone, Option.or_assoc]
    split <;> rfl

/-- The cached sets are the last ones of the frames so far, or were dropped since. -/
structure Cached (past : List Bytes) (s : Stream) : Prop where
  sps : s.sps = none ∨ s.sps = latest nalSps past
  pps : s.pps = none ∨ s.pps = latest nalPps past

theorem cacheSet_latest {t : Int} {past : List Bytes} {cached : Option Bytes}
    (nals : List Bytes) (h : cached = none ∨ cached = latest t past) :
    cacheSet t cached nals = none ∨ cacheSet t cached nals = latest t (past ++ nals) := by
  rw [cacheSet_eq, latest_append]
  rcases h with rfl | rfl
  · cases latest t nals with
    | none => exact .inl rfl
    | some n => exact .inr rfl
  · exact .inr rfl

theorem Cached.cacheSets {past : List Bytes} {s : Stream} (h : Cached past s)
    (nals : List Bytes) : Cached (past ++ nals) (s.cacheSets nals) :=
  ⟨cacheSet_latest nals h.sps, cacheSet_latest nals h.pps⟩

/-- The parameter sets that go in front of a keyframe. -/
theorem Cached.accessUnit {past : List Bytes} {s : Stream} (h : Cached past s) (f : VideoFrame) :
    AccessUnit past f ((s.cacheSets (frameNals f.payload)).insertSets f.keyframe
      (frameNals f.payload)) := by
  obtain ⟨hs, hp⟩ := h.cacheSets (frameNals f.payload)
  unfold insertSets
  split
  · rename_i hc
    simp only [Bool.and_eq_true, Bool.not_eq_true', List.any_eq_false, decide_eq_true_eq] at hc
    obtain ⟨⟨⟨hk, hts⟩, htp⟩, hno⟩ := hc
    cases hsps : (s.cacheSets (frameNals f.payload)).sps with
    | none => simp [hsps, truthy] at hts
    | some sps =>
      cases hpps : (s.cacheSets (frameNals f.payload)).pps with
      | none => simp [hpps, truthy] at htp
      | some pps =>
        rw [hsps] at hs
        rw [hpps] at hp
        refine .withSets hk hno ?_ ?_
        · exact (hs.resolve_left (by simp)).symm
        · exact (hp.resolve_left (by simp)).symm
  · exact .own

end Stream
end DvrBridge
