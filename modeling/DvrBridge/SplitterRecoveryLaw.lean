import DvrBridge.SplitterRecovery

/-! Which NALs the incremental splitter returns, whatever it discards. -/
namespace DvrBridge
open H264 Search Window

/-- A discard between the bytes of a start code at `q`. -/
def CutAt (q : Nat) (discards : List Nat) : Prop := ∃ e ∈ discards, q < e ∧ e < q + 3

namespace AnnexBSplitter
variable {f : Nat → UInt8} {lo hi n q j p : Nat} {s : AnnexBSplitter} {r : Fed}

theorem LastCode.le_of_open (h : LastCode f lo n p) (hc : Closed f 0 hi q j)
    (hn : n < q + 3 + j + 3) : p ≤ q := by
  by_contra hlt
  have h3 := at_disjoint hc.opens h.opens (Nat.not_le.mp hlt)
  obtain ⟨d, rfl⟩ := Nat.exists_eq_add_of_le h3
  have hle := h.le
  exact hc.next d (by omega) h.opens

theorem LastCode.ge_of_mem (h : LastCode f lo n p) (hc : Closed f 0 hi q j) (hn : q + 3 ≤ n) :
    q ≤ p := by
  by_contra hlt
  exact h.last q (at_disjoint h.opens hc.opens (Nat.not_le.mp hlt)) hn hc.opens

theorem LoopEnd.pos_ge (h : LoopEnd f n s r) (hs : s.pos ≤ n) : s.pos ≤ r.splitter.pos := by
  cases h with
  | junk _ hge => exact hge
  | kept hl => exact hl.ge
  | dropped _ _ hp =>
    rw [hp]
    exact hs

theorem LoopEnd.discards_eq (h : LoopEnd f n s r) {e : Nat} (he : e ∈ r.discards) : e = n := by
  cases h with
  | junk _ _ _ hd | kept _ _ hd =>
    rw [hd] at he
    cases he
  | dropped _ _ _ hd =>
    rw [hd] at he
    exact List.mem_singleton.mp he

/-- While the NAL at `q` is open, its start code stays unless a discard cuts it. -/
theorem LoopEnd.pos_le_iff (h : LoopEnd f n s r) (hs : s.pos ≤ q) (hc : Closed f 0 hi q j)
    (hfit : (3 + j + 3 : Int) ≤ s.maxNal) (hn : n < q + 3 + j + 3) :
    r.splitter.pos ≤ q ↔ ¬ CutAt q r.discards := by
  cases h with
  | junk hno _ hpos hd =>
    have hnocut : ¬ CutAt q r.discards := by simp [CutAt, hd]
    refine iff_of_true ?_ hnocut
    rcases hpos with hpos | hpos
    · omega
    · by_contra hlt
      exact hno q hs (by omega) hc.opens
  | kept hl _ hd =>
    have hnocut : ¬ CutAt q r.discards := by simp [CutAt, hd]
    exact iff_of_true (hl.le_of_open hc hn) hnocut
  | @dropped p hl hmax hp hd =>
    rw [hp, hd]
    constructor
    · rintro hle ⟨e, he, hlt, -⟩
      cases List.mem_singleton.mp he
      omega
    · intro hno
      by_contra hlt
      by_cases h3 : n < q + 3
      · exact hno ⟨n, List.mem_singleton.mpr rfl, by omega, h3⟩
      · -- the NAL at `q` itself would be too long
        have hle := hl.le_of_open hc hn
        have hge := hl.ge_of_mem hc (by omega)
        omega

theorem LoopEnd.lt_pos (h : LoopEnd f n s r) (hs : s.pos ≤ q) (hc : Closed f 0 hi q j)
    (hn : q + 3 + j + 3 ≤ n) : q < r.splitter.pos := by
  cases h with
  | junk hno => exact absurd hc.opens (hno q hs (by omega))
  | kept hl =>
    by_contra hle
    exact hl.last (q + 3 + j) (by omega) hn hc.closes
  | dropped _ _ hp =>
    rw [hp]
    omega

/-- The NAL `x` at `q` in the run so far: while it is open its start code is in the buffer unless
a discard cut it; once it is closed it has been returned unless a discard cut it. -/
structure Tracks (f : Nat → UInt8) (q j : Nat) (x : Bytes) (n : Nat) (r : Fed) : Prop where
  holds : Holds f n r.splitter
  before : n < q + 3 + j + 3 →
    (r.splitter.pos ≤ q ↔ ¬ CutAt q r.discards) ∧ ∀ y, (q, y) ∉ r.nals
  after : q + 3 + j + 3 ≤ n →
    q < r.splitter.pos ∧ ((q, x) ∈ r.nals ↔ ¬ CutAt q r.discards)

theorem cutAt_append (q : Nat) (ds es : List Nat) :
    CutAt q (ds ++ es) ↔ CutAt q ds ∨ CutAt q es := by
  simp only [CutAt, List.mem_append, or_and_right, exists_or]

theorem Tracks.feed {x data : Bytes} (h : Tracks f q j x n r) (hc : Closed f 0 hi q j)
    (hx : x = nalAt f q j) (hne : x ≠ []) (hfit : (3 + j + 3 : Int) ≤ r.splitter.maxNal)
    (hdata : data = slice f n data.length) :
    Tracks f q j x (n + data.length)
      { splitter := (r.splitter.feed data).splitter
        nals := r.nals ++ (r.splitter.feed data).nals
        discards := r.discards ++ (r.splitter.feed data).discards } := by
  obtain ⟨hnals, hholds, hend⟩ := feed_spec h.holds hdata
  have hpos := hend.pos_ge (by have := h.holds.le; omega)
  have hearlier {y : Bytes} (hy : (q, y) ∈ (r.splitter.feed data).nals) :
      r.splitter.pos ≤ q ∧ q + 3 + j + 3 ≤ n + data.length := by
    obtain ⟨i, hi, -⟩ := (hnals q y).mp hy
    obtain rfl := hi.unique hc
    exact ⟨hi.ge, hi.le⟩
  have hlate (hn : q + 3 ≤ n + data.length) : ¬ CutAt q (r.splitter.feed data).discards := by
    rintro ⟨e, he, -, hlt⟩
    have := hend.discards_eq he
    omega
  by_cases hopen : n < q + 3 + j + 3
  · obtain ⟨hiff, hno⟩ := h.before hopen
    refine ⟨hholds, ?_, ?_⟩
    · intro hn
      constructor
      · rw [cutAt_append, not_or, ← hiff]
        by_cases hp : r.splitter.pos ≤ q
        · rw [hend.pos_le_iff hp hc hfit hn]
          exact (and_iff_right hp).symm
        · have hgt : ¬ (r.splitter.feed data).splitter.pos ≤ q := by omega
          exact iff_of_false hgt (fun hand => hp hand.1)
      · intro y hy
        rcases List.mem_append.mp hy with hy | hy
        · exact hno y hy
        · have := (hearlier hy).2
          omega
    · intro hn
      rw [cutAt_append, not_or, List.mem_append, and_iff_left (hlate (by omega)), ← hiff]
      by_cases hp : r.splitter.pos ≤ q
      · refine ⟨hend.lt_pos hp hc hn, iff_of_true (.inr ?_) hp⟩
        exact (hnals q x).mpr ⟨j, { hc with ge := hp, le := hn }, hx, hne⟩
      · refine ⟨by simp only; omega, iff_of_false ?_ hp⟩
        rintro (hm | hm)
        · exact hno x hm
        · exact hp (hearlier hm).1
  · obtain ⟨hlt, hiff⟩ := h.after (Nat.not_lt.mp hopen)
    refine ⟨hholds, fun hn => absurd hn (by omega), fun _ => ⟨by simp only; omega, ?_⟩⟩
    rw [cutAt_append, not_or, and_iff_left (hlate (by omega)), List.mem_append, ← hiff]
    refine or_iff_left ?_
    intro hm
    have := (hearlier hm).1
    omega

theorem feedAll_maxNal (s : AnnexBSplitter) (chunks : List Bytes) :
    (s.feedAll chunks).splitter.maxNal = s.maxNal := by
  induction chunks using List.reverseRecOn with
  | nil => rfl
  | append_singleton chunks data ih =>
    rw [feedAll_concat, ← ih]
    exact ((s.feedAll chunks).splitter.feed_bounds data).1

theorem slice_flatten_concat {chunks : List Bytes} {data : Bytes}
    (h : (chunks ++ [data]).flatten = slice f 0 (chunks ++ [data]).flatten.length) :
    chunks.flatten = slice f 0 chunks.flatten.length ∧
      data = slice f chunks.flatten.length data.length := by
  have happ := slice_append f 0 chunks.flatten.length data.length
  rw [List.flatten_append, List.flatten_singleton, List.length_append, ← happ, Nat.zero_add] at h
  exact List.append_inj h (length_slice ..).symm

theorem holds_feedAll (maxNal : Int) {chunks : List Bytes}
    (hf : chunks.flatten = slice f 0 chunks.flatten.length) :
    Holds f chunks.flatten.length
      (({ maxNal := maxNal } : AnnexBSplitter).feedAll chunks).splitter := by
  induction chunks using List.reverseRecOn with
  | nil => exact ⟨Nat.le_refl _, rfl⟩
  | append_singleton chunks data ih =>
    obtain ⟨h₁, h₂⟩ := slice_flatten_concat hf
    rw [feedAll_concat, List.flatten_append, List.flatten_singleton, List.length_append]
    exact (feed_spec (ih h₁) h₂).2.1

theorem tracks_feedAll {maxNal : Int} {x : Bytes} {chunks : List Bytes} (hc : Closed f 0 hi q j)
    (hx : x = nalAt f q j) (hne : x ≠ []) (hfit : (3 + j + 3 : Int) ≤ maxNal)
    (hf : chunks.flatten = slice f 0 chunks.flatten.length) :
    Tracks f q j x chunks.flatten.length
      (({ maxNal := maxNal } : AnnexBSplitter).feedAll chunks) := by
  induction chunks using List.reverseRecOn with
  | nil =>
    refine ⟨⟨Nat.le_refl _, rfl⟩, fun _ => ⟨iff_of_true (Nat.zero_le _) ?_, ?_⟩, fun hn => ?_⟩
    · simp [CutAt, feedAll]
    · simp [feedAll]
    · simp only [List.flatten_nil, List.length_nil] at hn
      omega
  | append_singleton chunks data ih =>
    obtain ⟨h₁, h₂⟩ := slice_flatten_concat hf
    rw [feedAll_concat, List.flatten_append, List.flatten_singleton, List.length_append]
    exact (ih h₁).feed hc hx hne (by rwa [feedAll_maxNal]) h₂

/-- A call discards the buffer exactly when the open NAL is too long. -/
theorem mem_discards_feed {data : Bytes} (h : Holds f n s) (hdata : data = slice f n data.length)
    {e : Nat} : e ∈ (s.feed data).discards ↔ e = n + data.length ∧ Overlong s data := by
  have hs := h.append hdata
  have hle := hs.le
  have hlong : Overlong s data ↔ ∃ a, LastCode f s.pos (n + data.length) (s.pos + a) ∧
      s.maxNal < ((n + data.length - (s.pos + a) : Nat) : Int) := by
    have hlen (a : Nat) : ((s.buf ++ data).drop a).length = n + data.length - (s.pos + a) := by
      have := hs.length
      simp only at this
      rw [List.length_drop, this]
      omega
    simp only [Overlong, hlen]
    exact exists_congr fun a => and_assoc.symm.trans
      (and_congr_left' (hs.lastCode_iff a).symm)
  obtain ⟨-, -, hend⟩ := feed_spec h hdata
  rw [hlong]
  cases hend with
  | junk hno _ _ hd =>
    rw [hd]
    refine iff_of_false (by simp) ?_
    rintro ⟨-, a, hl, -⟩
    exact hno _ hl.ge hl.le hl.opens
  | kept hl hmax hd =>
    rw [hd]
    refine iff_of_false (by simp) ?_
    rintro ⟨-, a, hl', hlt⟩
    rw [hl'.unique hl] at hlt
    omega
  | @dropped p hl hmax _ hd =>
    rw [hd, List.mem_singleton]
    have hp := hl.ge
    have hpa : s.pos + (p - s.pos) = p := by omega
    exact (and_iff_left ⟨p - s.pos, by rwa [hpa], by rwa [hpa]⟩).symm

/-- The discards of a sequence of calls. -/
theorem mem_discards_feedAll (maxNal : Int) {chunks : List Bytes}
    (hf : chunks.flatten = slice f 0 chunks.flatten.length) {e : Nat} :
    e ∈ (({ maxNal := maxNal } : AnnexBSplitter).feedAll chunks).discards ↔
      ∃ past data rest, chunks = past ++ data :: rest ∧
        Overlong (({ maxNal := maxNal } : AnnexBSplitter).feedAll past).splitter data ∧
        e = (past ++ [data]).flatten.length := by
  induction chunks using List.reverseRecOn with
  | nil => simp [feedAll]
  | append_singleton chunks data ih =>
    obtain ⟨h₁, h₂⟩ := slice_flatten_concat hf
    rw [feedAll_concat, List.mem_append, ih h₁, mem_discards_feed (holds_feedAll maxNal h₁) h₂]
    constructor
    · rintro (⟨past, d, rest, rfl, hlong, rfl⟩ | ⟨rfl, hlong⟩)
      · exact ⟨past, d, rest ++ [data], by simp, hlong, rfl⟩
      · exact ⟨chunks, data, [], rfl, hlong, by simp⟩
    · rintro ⟨past, d, rest, he, hlong, rfl⟩
      cases rest using List.reverseRecOn with
      | nil =>
        obtain ⟨rfl, hd⟩ := List.append_inj' he rfl
        cases hd
        exact .inr ⟨by simp, hlong⟩
      | append_singleton rest c _ =>
        rw [← List.cons_append, ← List.append_assoc] at he
        exact .inl ⟨past, d, rest, (List.append_inj' he rfl).1, hlong, rfl⟩

end AnnexBSplitter

/-- The stream as a function of the position. -/
def byteAt (stream : Bytes) (i : Nat) : UInt8 := stream.getD i 0

theorem slice_byteAt (stream : Bytes) : stream = slice (byteAt stream) 0 stream.length := by
  apply List.ext_getElem (by simp)
  intro i h₁ h₂
  simp [slice, byteAt, h₁]

theorem closed_of_delimited {f : Nat → UInt8} {n q j : Nat} (h : Delimited (slice f 0 n) q j) :
    Closed f 0 n q j ∧ payloadAt (slice f 0 n) q j = nalAt f q j := by
  have hlen : start3.length = 3 := rfl
  obtain ⟨ho, hc⟩ := h
  rw [prefix_drop_slice_iff f start3 (by decide), Nat.zero_add] at ho
  obtain ⟨hq, ha⟩ := ho
  rw [drop_slice f (by omega), find_slice_eq_some_iff f start3 (by decide), Nat.zero_add] at hc
  obtain ⟨hj, hcl, hnext⟩ := hc
  refine ⟨⟨Nat.zero_le _, by omega, ha, hcl, hnext⟩, ?_⟩
  rw [payloadAt, drop_slice f (by omega), take_slice f (by omega), nalAt, Nat.zero_add]

/-- A NAL that fits is returned exactly when no discard cuts its start code. -/
theorem mem_nals_iff {maxNal : Int} {chunks : List Bytes} {q j : Nat}
    (h : Fits maxNal chunks.flatten q j) :
    (q, payloadAt chunks.flatten q j) ∈
        (({ maxNal := maxNal } : AnnexBSplitter).feedAll chunks).nals ↔
      ¬ CutAt q (({ maxNal := maxNal } : AnnexBSplitter).feedAll chunks).discards := by
  have hstream := slice_byteAt chunks.flatten
  have hd : Delimited (slice (byteAt chunks.flatten) 0 chunks.flatten.length) q j := by
    rw [← hstream]
    exact h.toDelimited
  obtain ⟨hc, hx⟩ := closed_of_delimited hd
  rw [← hstream] at hx
  exact ((AnnexBSplitter.tracks_feedAll hc hx h.ne_nil h.le hstream).after hc.le).2

/-- Every NAL that fits is returned, if and only if no chunk on which the open NAL gets too long ends
inside the start code of a NAL that fits. -/
theorem recovered_iff (maxNal : Int) (chunks : List Bytes) :
    (∀ q j, Fits maxNal chunks.flatten q j → (q, payloadAt chunks.flatten q j) ∈
      (({ maxNal := maxNal } : AnnexBSplitter).feedAll chunks).nals) ↔
    ∀ past data rest, chunks = past ++ data :: rest →
      Overlong (({ maxNal := maxNal } : AnnexBSplitter).feedAll past).splitter data →
      ∀ q j, Fits maxNal chunks.flatten q j →
        ¬ (q < (past ++ [data]).flatten.length ∧ (past ++ [data]).flatten.length < q + 3) := by
  have hstream := slice_byteAt chunks.flatten
  constructor
  · intro h past data rest he hlong q j hfit hcut
    refine (mem_nals_iff hfit).mp (h q j hfit) ⟨_, ?_, hcut⟩
    exact (AnnexBSplitter.mem_discards_feedAll maxNal hstream).mpr
      ⟨past, data, rest, he, hlong, rfl⟩
  · intro h q j hfit
    rw [mem_nals_iff hfit]
    rintro ⟨e, he, hcut⟩
    obtain ⟨past, data, rest, hch, hlong, rfl⟩ :=
      (AnnexBSplitter.mem_discards_feedAll maxNal hstream).mp he
    exact h past data rest hch hlong q j hfit hcut

/-- The chunk that makes the open NAL too long ends inside the next start code: the NAL behind it is
lost. -/
theorem not_recovered :
    ¬ ∀ q j, Fits 7 [[0, 0, 1, 1, 2, 3, 0, 0], [1, 0x65, 0, 0, 1]].flatten q j →
      (q, payloadAt [[0, 0, 1, 1, 2, 3, 0, 0], [1, 0x65, 0, 0, 1]].flatten q j) ∈
        (({ maxNal := 7 } : AnnexBSplitter).feedAll
          [[0, 0, 1, 1, 2, 3, 0, 0], [1, 0x65, 0, 0, 1]]).nals := by
  intro h
  have hfit : Fits 7 [[0, 0, 1, 1, 2, 3, 0, 0], [1, 0x65, 0, 0, 1]].flatten 6 1 :=
    ⟨⟨by decide, by decide⟩, by decide, by decide⟩
  have hmem := h 6 1 hfit
  revert hmem
  decide

end DvrBridge
