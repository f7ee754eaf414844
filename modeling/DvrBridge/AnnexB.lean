import DvrBridge.Delimiters
import DvrBridge.H264

/-! Annex-B byte strings: what the splitter yields of NALs behind start codes. -/
namespace DvrBridge.H264
open Search

theorem unbordered_start3 : Unbordered start3 := by decide

theorem start3_ne_nil : start3 ≠ [] := by decide

/-- The NALs that end at a start code, without the zeros that belong to it. -/
def closedNals (ps : List Bytes) : List Bytes :=
  (ps.map (List.rdropWhile (· = 0))).filter (· ≠ [])

/-- The NAL after the last start code. -/
def openNal (t : Bytes) : List Bytes := if t = [] then [] else [t]

theorem closedNals_cons (p : Bytes) (ps : List Bytes) :
    closedNals (p :: ps) = (if p.rdropWhile (· = 0) = [] then [] else [p.rdropWhile (· = 0)]) ++
      closedNals ps := by
  rw [closedNals, List.map_cons, closedNals]
  by_cases h : p.rdropWhile (· = 0) = []
  · rw [if_pos h, List.filter_cons_of_neg (by simp [h]), List.nil_append]
  · rw [if_neg h, List.filter_cons_of_pos (by simp [h]), List.singleton_append]

theorem closedNals_append (ps qs : List Bytes) :
    closedNals (ps ++ qs) = closedNals ps ++ closedNals qs := by
  rw [closedNals, List.map_append, List.filter_append, closedNals, closedNals]

theorem iterNalsFrom_eq {rest t : Bytes} {ps : List Bytes} {fuel : Nat}
    (h : Pieces start3 rest ps t) (hf : rest.length < fuel) :
    iterNalsFrom fuel rest = closedNals ps ++ openNal t := by
  induction h generalizing fuel with
  | last hn =>
    cases fuel with
    | zero => exact absurd hf (Nat.not_lt_zero _)
    | succ fuel =>
      simp only [iterNalsFrom, hn]
      rfl
  | @cut xs t ps j hj _ ih =>
    cases fuel with
    | zero => exact absurd hf (Nat.not_lt_zero _)
    | succ fuel =>
      have hl := find_lt start3 xs j hj
      have hlen : start3.length = 3 := rfl
      have hrest := @ih fuel (by rw [List.length_drop]; omega)
      rw [hlen] at hrest
      simp only [iterNalsFrom, hj]
      rw [hrest, closedNals_cons, List.append_assoc]

theorem iterNals_eq_nil {buf t : Bytes} (h : Pieces start3 buf [] t) : iterNals buf = [] := by
  cases h with
  | last hn => simp only [iterNals, hn]

/-- What `iter_nals` yields of a buffer with a start code: the first stretch is junk. -/
theorem iterNals_eq {buf p t : Bytes} {ps : List Bytes} (h : Pieces start3 buf (p :: ps) t) :
    iterNals buf = closedNals ps ++ openNal t := by
  cases h with
  | @cut _ _ _ j hj hrest =>
    have hl := find_lt start3 buf j hj
    have hlen : start3.length = 3 := rfl
    simp only [iterNals, hj]
    exact iterNalsFrom_eq hrest (by rw [List.length_drop]; omega)

inductive StartCode
  | three
  | four
  deriving DecidableEq

def StartCode.bytes : StartCode → Bytes
  | .three => start3
  | .four => start4

/-- The zero of a 4-byte start code. -/
def StartCode.zero : StartCode → Bytes
  | .three => []
  | .four => [0]

/-- NALs, each behind its start code. -/
def annexB (ns : List (StartCode × Bytes)) : Bytes := ns.flatMap fun n => n.1.bytes ++ n.2

/-- NALs that can be told from the start codes around them. -/
structure Splittable (ns : List Bytes) : Prop where
  ne_nil : ∀ n ∈ ns, n ≠ []
  free : ∀ n ∈ ns, ¬ start3 <:+: n
  last : ∀ n ∈ ns.dropLast, n.getLast? ≠ some 0

theorem StartCode.bytes_eq (c : StartCode) : c.bytes = c.zero ++ start3 := by
  cases c <;> rfl

/-- A zero at the end of a stretch does not complete a start code. -/
theorem find_append_zero {p : Bytes} (c : StartCode) (h : find start3 p = none) :
    find start3 (p ++ c.zero) = none := by
  cases c with
  | three => simpa [StartCode.zero] using h
  | four =>
    rw [find_eq_none_iff_absent] at h ⊢
    rintro ⟨l, r, he⟩
    rw [StartCode.zero] at he
    cases r using List.reverseRecOn with
    | nil =>
      rw [List.append_nil] at he
      have hlast := congrArg List.getLast? he
      rw [List.getLast?_append, List.getLast?_append] at hlast
      simp [start3] at hlast
    | append_singleton r b _ =>
      rw [← List.append_assoc] at he
      exact h ⟨l, r, (List.append_inj' he rfl).1⟩

theorem rdropWhile_append_zero {n : Bytes} (c : StartCode) (h : n.getLast? ≠ some 0) :
    (n ++ c.zero).rdropWhile (· = 0) = n := by
  have hn : n.rdropWhile (· = 0) = n := by
    apply List.rdropWhile_eq_self_iff.mpr
    intro hne h0
    apply h
    rw [List.getLast?_eq_some_getLast hne]
    simpa using h0
  cases c with
  | three => rw [StartCode.zero, List.append_nil, hn]
  | four => rw [StartCode.zero, List.rdropWhile_concat_pos _ _ _ (by simp), hn]

theorem annexB_cons (n : StartCode × Bytes) (ns : List (StartCode × Bytes)) :
    annexB (n :: ns) = n.1.zero ++ (start3 ++ (n.2 ++ annexB ns)) := by
  rw [annexB, List.flatMap_cons, ← annexB, StartCode.bytes_eq, List.append_assoc,
    List.append_assoc]

/-- The stretches between the start codes of `ns`, with `p` in front of the first. -/
def stretches (p : Bytes) : List (StartCode × Bytes) → List Bytes × Bytes
  | [] => ([], p)
  | n :: ns => ((p ++ n.1.zero) :: (stretches n.2 ns).1, (stretches n.2 ns).2)

theorem append_annexB (p : Bytes) (ns : List (StartCode × Bytes)) :
    p ++ annexB ns = (stretches p ns).1.flatMap (· ++ start3) ++ (stretches p ns).2 := by
  induction ns generalizing p with
  | nil => simp [annexB, stretches]
  | cons n ns ih =>
    rw [annexB_cons, ih n.2]
    simp only [stretches, List.flatMap_cons, List.append_assoc]

theorem pieces_annexB {p : Bytes} {ns : List (StartCode × Bytes)} (hp : find start3 p = none)
    (hf : ∀ n ∈ ns, find start3 n.2 = none) :
    Pieces start3 (p ++ annexB ns) (stretches p ns).1 (stretches p ns).2 := by
  rw [append_annexB]
  have hall : (∀ q ∈ (stretches p ns).1, find start3 q = none) ∧
      find start3 (stretches p ns).2 = none := by
    induction ns generalizing p with
    | nil => exact ⟨by simp [stretches], hp⟩
    | cons n ns ih =>
      obtain ⟨hn, hrest⟩ := List.forall_mem_cons.mp hf
      obtain ⟨h₁, h₂⟩ := ih hn hrest
      exact ⟨List.forall_mem_cons.mpr ⟨find_append_zero n.1 hp, h₁⟩, h₂⟩
  exact .join unbordered_start3 hall.1 hall.2

theorem nals_stretches {n : Bytes} {ns : List (StartCode × Bytes)}
    (hs : Splittable (n :: ns.map (·.2))) :
    closedNals (stretches n ns).1 ++ openNal (stretches n ns).2 = n :: ns.map (·.2) := by
  induction ns generalizing n with
  | nil =>
    have hne : n ≠ [] := hs.ne_nil n (List.mem_cons_self ..)
    simp [stretches, closedNals, openNal, hne]
  | cons m ns ih =>
    have hne : n ≠ [] := hs.ne_nil n (List.mem_cons_self ..)
    have hz : n.getLast? ≠ some 0 := hs.last n (by simp)
    have hrest : Splittable (m.2 :: ns.map (·.2)) :=
      ⟨fun x hx => hs.ne_nil x (List.mem_cons_of_mem n hx),
        fun x hx => hs.free x (List.mem_cons_of_mem n hx),
        fun x hx => hs.last x (by simpa using Or.inr hx)⟩
    rw [stretches, closedNals_cons, rdropWhile_append_zero m.1 hz, if_neg hne, List.append_assoc,
      ih hrest, List.singleton_append, List.map_cons]

theorem iterNals_annexB {junk : Bytes} {ns : List (StartCode × Bytes)}
    (hj : ¬ start3 <:+: junk) (hs : Splittable (ns.map (·.2))) :
    iterNals (junk ++ annexB ns) = ns.map (·.2) := by
  have hfree : ∀ n ∈ ns, find start3 n.2 = none := fun n hn =>
    (find_eq_none_iff_absent ..).mpr (hs.free n.2 (List.mem_map_of_mem hn))
  have hpieces := pieces_annexB ((find_eq_none_iff_absent ..).mpr hj) hfree
  cases ns with
  | nil => exact iterNals_eq_nil hpieces
  | cons n ns =>
    rw [iterNals_eq hpieces]
    exact nals_stretches hs

theorem closedNals_mem {ps : List Bytes} {n : Bytes} (hps : ∀ p ∈ ps, find start3 p = none)
    (hn : n ∈ closedNals ps) : ¬ start3 <:+: n ∧ n.getLast? ≠ some 0 := by
  obtain ⟨hm, hne⟩ := List.mem_filter.mp hn
  obtain ⟨p, hp, rfl⟩ := List.mem_map.mp hm
  have hne : p.rdropWhile (· = 0) ≠ [] := by simpa using hne
  constructor
  · intro h
    have hfree := (find_eq_none_iff_absent ..).mp (hps p hp)
    exact hfree (h.trans (List.rdropWhile_prefix _ _).isInfix)
  · rw [List.getLast?_eq_some_getLast hne]
    have := List.rdropWhile_last_not _ p hne
    simpa using this

/-- What the splitter yields can be told from the start codes around it. -/
theorem splittable_iterNals (buf : Bytes) : Splittable (iterNals buf) := by
  obtain ⟨ps, t, h⟩ := exists_pieces start3_ne_nil buf
  have hne := ne_nil_of_mem_iterNals buf
  cases ps with
  | nil =>
    rw [iterNals_eq_nil h]
    exact ⟨by simp, by simp, by simp⟩
  | cons p ps =>
    have hps := (List.forall_mem_cons.mp (h.find_of_mem start3_ne_nil)).2
    rw [iterNals_eq h] at hne ⊢
    refine ⟨hne, ?_, ?_⟩
    · intro n hn
      rcases List.mem_append.mp hn with hn | hn
      · exact (closedNals_mem hps hn).1
      · by_cases ht : t = []
        · simp [openNal, ht] at hn
        · rw [openNal, if_neg ht, List.mem_singleton] at hn
          rw [hn]
          exact (find_eq_none_iff_absent ..).mp h.find_tail
    · intro n hn
      have hclosed : n ∈ closedNals ps := by
        by_cases ht : t = []
        · rw [openNal, if_pos ht, List.append_nil] at hn
          exact List.mem_of_mem_dropLast hn
        · rwa [openNal, if_neg ht, List.dropLast_concat] at hn
      exact (closedNals_mem hps hclosed).2

/-- Consecutive NALs of a buffer can be told from the start codes around them. -/
theorem Splittable.of_infix {ns ms : List Bytes} (h : Splittable ns) (hm : ms <:+: ns) :
    Splittable ms := by
  refine ⟨fun n hn => h.ne_nil n (hm.subset hn), fun n hn => h.free n (hm.subset hn),
    fun n hn => ?_⟩
  obtain ⟨a, b, rfl⟩ := hm
  refine h.last n ?_
  have hne : ms ≠ [] := by
    rintro rfl
    cases hn
  cases b using List.reverseRecOn with
  | nil =>
    rw [List.append_nil, List.dropLast_append_of_ne_nil hne]
    exact List.mem_append_right a hn
  | append_singleton b x _ =>
    rw [← List.append_assoc, List.dropLast_concat]
    simp [List.mem_of_mem_dropLast hn]

/-- Splitting inverts joining with start codes of either length, whatever junk comes first; and what
any buffer was split into is split into the same again. -/
theorem annexB_roundTrip :
    (∀ (junk : Bytes) (ns : List (StartCode × Bytes)), ¬ start3 <:+: junk →
      Splittable (ns.map (·.2)) → iterNals (junk ++ annexB ns) = ns.map (·.2)) ∧
    ∀ buf : Bytes, iterNals (annexB ((iterNals buf).map fun n => (.four, n))) = iterNals buf := by
  constructor
  · intro junk ns hj hs
    exact iterNals_annexB hj hs
  · intro buf
    have hmap : ((iterNals buf).map fun n => (StartCode.four, n)).map (·.2) = iterNals buf := by
      simp [Function.comp_def]
    have hs : Splittable (((iterNals buf).map fun n => (StartCode.four, n)).map (·.2)) := by
      rw [hmap]
      exact splittable_iterNals buf
    have hempty : ¬ start3 <:+: ([] : Bytes) := by decide
    have h := iterNals_annexB hempty hs
    rwa [hmap] at h

/-- Zeros at the end of the junk, and a last NAL that ends in one. -/
theorem annexB_roundTrip_zeros :
    iterNals ([0xde, 0, 0] ++ annexB [(.three, [0x67, 0, 0, 3]), (.four, [0x65, 0])]) =
      [[0x67, 0, 0, 3], [0x65, 0]] :=
  annexB_roundTrip.1 [0xde, 0, 0] [(.three, [0x67, 0, 0, 3]), (.four, [0x65, 0])] (by decide)
    ⟨by decide, by decide, by decide⟩

end DvrBridge.H264
