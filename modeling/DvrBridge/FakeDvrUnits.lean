import DvrBridge.AnnexB

/-! The access units that the simulated device makes of a recording: the NALs are grouped, none is
changed, and what comes after the last picture is left out. -/
namespace DvrBridge.FakeDvr
open H264

/-- The start codes that `split_access_units` puts in front of the NALs. -/
def joined (nals : List Bytes) : Bytes := nals.flatMap fun n => start4 ++ n

/-- The loop of `split_access_units`; `pending` are the NALs since the last picture. -/
def unitsFrom (pending : List Bytes) : List Bytes → List (Bytes × Bool)
  | [] => []
  | nal :: nals =>
    let pending := pending ++ [nal]
    let t := nalType nal
    if isVcl t then (joined pending, decide (t = nalIdr)) :: unitsFrom [] nals
    else unitsFrom pending nals

/-- Group an Annex-B stream into (access_unit, keyframe) tuples. -/
def splitAccessUnits (annexb : Bytes) : List (Bytes × Bool) := unitsFrom [] (iterNals annexb)

/-- Leading NALs and one picture. -/
structure Group where
  leading : List Bytes
  picture : Bytes

namespace Group

def nals (g : Group) : List Bytes := g.leading ++ [g.picture]

def unit (g : Group) : Bytes × Bool := (joined g.nals, decide (nalType g.picture = nalIdr))

/-- Only the last NAL is a picture. -/
def Proper (g : Group) : Prop :=
  isVcl (nalType g.picture) = true ∧ ∀ n ∈ g.leading, isVcl (nalType n) = false

end Group

/-- The loop groups what is pending and what follows. -/
theorem unitsFrom_groups (pending nals : List Bytes)
    (hp : ∀ n ∈ pending, isVcl (nalType n) = false) :
    ∃ groups : List Group, ∃ rest : List Bytes,
      pending ++ nals = groups.flatMap Group.nals ++ rest ∧
      (∀ n ∈ rest, isVcl (nalType n) = false) ∧ (∀ g ∈ groups, g.Proper) ∧
      unitsFrom pending nals = groups.map Group.unit := by
  induction nals generalizing pending with
  | nil => exact ⟨[], pending, by simp, hp, by simp, rfl⟩
  | cons nal nals ih =>
    cases hv : isVcl (nalType nal) with
    | true =>
      obtain ⟨groups, rest, he, hrest, hproper, hu⟩ := ih [] (by simp)
      rw [List.nil_append] at he
      refine ⟨⟨pending, nal⟩ :: groups, rest, ?_, hrest, ?_, ?_⟩
      · rw [List.flatMap_cons, Group.nals, List.append_assoc, ← he, List.append_assoc,
          List.singleton_append]
      · exact List.forall_mem_cons.mpr ⟨⟨hv, hp⟩, hproper⟩
      · simp only [unitsFrom, hv, if_true, hu, List.map_cons]
        rfl
    | false =>
      have hp' : ∀ n ∈ pending ++ [nal], isVcl (nalType n) = false := by
        intro n hn
        rcases List.mem_append.mp hn with hn | hn
        · exact hp n hn
        · rw [List.mem_singleton.mp hn]
          exact hv
      obtain ⟨groups, rest, he, hrest, hproper, hu⟩ := ih (pending ++ [nal]) hp'
      refine ⟨groups, rest, ?_, hrest, hproper, ?_⟩
      · rw [← he, List.append_assoc, List.singleton_append]
      · simp only [unitsFrom, hv, Bool.false_eq_true, if_false, hu]

/-- The loop on groups that are followed by no picture. -/
theorem unitsFrom_flatMap {groups : List Group} (hg : ∀ g ∈ groups, g.Proper) {rest : List Bytes}
    (hr : ∀ n ∈ rest, isVcl (nalType n) = false) :
    unitsFrom [] (groups.flatMap Group.nals ++ rest) = groups.map Group.unit := by
  have hlead : ∀ (lead pending tail : List Bytes), (∀ n ∈ lead, isVcl (nalType n) = false) →
      unitsFrom pending (lead ++ tail) = unitsFrom (pending ++ lead) tail := by
    intro lead
    induction lead with
    | nil => simp
    | cons n lead ih =>
      intro pending tail hl
      obtain ⟨hn, hl⟩ := List.forall_mem_cons.mp hl
      simp only [List.cons_append, unitsFrom, hn, Bool.false_eq_true, if_false, ih _ _ hl,
        List.append_assoc, List.nil_append]
  induction groups with
  | nil =>
    have := hlead rest [] [] hr
    rw [List.append_nil] at this
    simpa [unitsFrom] using this
  | cons g groups ih =>
    obtain ⟨⟨hpic, hl⟩, hg⟩ := List.forall_mem_cons.mp hg
    rw [List.flatMap_cons, Group.nals, List.append_assoc, List.append_assoc, hlead _ _ _ hl,
      List.singleton_append]
    simp only [unitsFrom, hpic, if_true, ih hg, List.map_cons, List.nil_append]
    rfl

/-- NALs behind 4-byte start codes are split again. -/
theorem iterNals_joined {ns : List Bytes} (h : Splittable ns) :
    iterNals (joined ns) = ns := by
  have hmap : (ns.map fun n => (StartCode.four, n)).map (·.2) = ns := by
    simp [Function.comp_def]
  have hsplit : Splittable ((ns.map fun n => (StartCode.four, n)).map (·.2)) := hmap.symm ▸ h
  have hj : joined ns = annexB (ns.map fun n => (StartCode.four, n)) := by
    rw [joined, annexB, List.flatMap_map]
    rfl
  have hempty : ¬ start3 <:+: ([] : Bytes) := by decide
  have := iterNals_annexB hempty hsplit
  rwa [List.nil_append, ← hj, hmap] at this

theorem joined_append (ns ms : List Bytes) : joined (ns ++ ms) = joined ns ++ joined ms :=
  List.flatMap_append

theorem joined_flatMap (groups : List Group) :
    joined (groups.flatMap Group.nals) = (groups.map Group.unit).flatMap (·.1) := by
  induction groups with
  | nil => rfl
  | cons g groups ih => rw [List.flatMap_cons, joined_append, ih]; rfl

/-- The access units of a recording hold its NALs in order up to the last picture, one picture each
and at the end, and are keyframes where that picture is an IDR; the driver's splitter finds the
same NALs in them, and the units are their own access units. -/
theorem splitAccessUnits_groups (annexb : Bytes) :
    ∃ groups : List Group, ∃ rest : List Bytes,
      iterNals annexb = groups.flatMap Group.nals ++ rest ∧
      (∀ n ∈ rest, isVcl (nalType n) = false) ∧ (∀ g ∈ groups, g.Proper) ∧
      splitAccessUnits annexb = groups.map Group.unit ∧
      (∀ g ∈ groups, iterNals g.unit.1 = g.nals) ∧
      splitAccessUnits ((splitAccessUnits annexb).flatMap (·.1)) = splitAccessUnits annexb := by
  obtain ⟨groups, rest, he, hrest, hproper, hu⟩ := unitsFrom_groups [] (iterNals annexb) (by simp)
  rw [List.nil_append] at he
  have hsplit := splittable_iterNals annexb
  have hall : iterNals (joined (groups.flatMap Group.nals)) = groups.flatMap Group.nals :=
    iterNals_joined (hsplit.of_infix (he ▸ (List.prefix_append _ _).isInfix))
  refine ⟨groups, rest, he, hrest, hproper, hu, fun g hg => ?_, ?_⟩
  · refine iterNals_joined (hsplit.of_infix ?_)
    obtain ⟨a, b, rfl⟩ := List.append_of_mem hg
    rw [he, List.flatMap_append, List.flatMap_cons]
    exact ⟨a.flatMap Group.nals, b.flatMap Group.nals ++ rest, by simp⟩
  · have hunits : splitAccessUnits annexb = groups.map Group.unit := hu
    rw [hunits, ← joined_flatMap, splitAccessUnits, hall]
    have hnone : ∀ n ∈ ([] : List Bytes), isVcl (nalType n) = false := by simp
    simpa using unitsFrom_flatMap hproper hnone

end DvrBridge.FakeDvr
