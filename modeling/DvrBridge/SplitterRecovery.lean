import DvrBridge.AnnexBSplitter
import DvrBridge.Window

/-! What the incremental splitter returns when it discards oversized NALs: its buffer as a window
of the stream. -/
namespace DvrBridge
open H264 Search Window

/-- The start code at `q` and, `j` bytes after it, the next one. -/
structure Delimited (stream : Bytes) (q j : Nat) : Prop where
  opens : start3 <+: stream.drop q
  closes : find start3 (stream.drop (q + 3)) = some j

/-- The payload between these start codes, without the zeros of the second. -/
def payloadAt (stream : Bytes) (q j : Nat) : Bytes :=
  ((stream.drop (q + 3)).take j).rdropWhile (· = 0)

/-- A NAL that is not empty and fits in `maxNal` bytes with the start codes on both sides. -/
structure Fits (maxNal : Int) (stream : Bytes) (q j : Nat) : Prop extends Delimited stream q j where
  ne_nil : payloadAt stream q j ≠ []
  le : (3 + j + 3 : Int) ≤ maxNal

/-- With `data` the NAL after the last start code is longer than the limit. -/
def Overlong (s : AnnexBSplitter) (data : Bytes) : Prop :=
  ∃ a, start3 <+: (s.buf ++ data).drop a ∧ find start3 ((s.buf ++ data).drop (a + 3)) = none ∧
    s.maxNal < ((s.buf ++ data).drop a).length

theorem at_disjoint {f : Nat → UInt8} {p q : Nat} (hp : At f start3 p) (hq : At f start3 q)
    (h : p < q) : p + 3 ≤ q := by
  obtain ⟨d, rfl⟩ := Nat.exists_eq_add_of_lt h
  have hwin (j : Nat) (hj : At f start3 (p + j)) (hle : j ≤ d + 1) :
      start3 <+: (slice f p (d + 4)).drop j :=
    (prefix_drop_slice_iff f start3 (by decide) p (d + 4) j).mpr
      ⟨by have : start3.length = 3 := rfl; omega, hj⟩
  have := unbordered_start3.disjoint (hwin 0 hp (by omega)) (hwin (d + 1) hq (Nat.le_refl _))
    (by omega)
  have hlen : start3.length = 3 := rfl
  omega

/-- Between `lo` and `hi` the start code at `p` and, `j` bytes after it, the next one. -/
structure Closed (f : Nat → UInt8) (lo hi p j : Nat) : Prop where
  ge : lo ≤ p
  le : p + 3 + j + 3 ≤ hi
  opens : At f start3 p
  closes : At f start3 (p + 3 + j)
  next : ∀ k < j, ¬ At f start3 (p + 3 + k)

def nalAt (f : Nat → UInt8) (p j : Nat) : Bytes := (slice f (p + 3) j).rdropWhile (· = 0)

theorem Closed.unique {f : Nat → UInt8} {lo lo' hi hi' p i j : Nat} (h : Closed f lo hi p i)
    (h' : Closed f lo' hi' p j) : i = j := by
  rcases Nat.lt_trichotomy i j with hlt | heq | hgt
  · exact absurd h.closes (h'.next i hlt)
  · exact heq
  · exact absurd h'.closes (h.next j hgt)

namespace AnnexBSplitter

/-- The buffer is the stream from `pos` to `n`. -/
structure Holds (f : Nat → UInt8) (n : Nat) (s : AnnexBSplitter) : Prop where
  le : s.pos ≤ n
  buf : s.buf = slice f s.pos (n - s.pos)

section holds
variable {f : Nat → UInt8} {n : Nat} {s : AnnexBSplitter}

theorem Holds.length (h : Holds f n s) : s.buf.length = n - s.pos := by
  rw [h.buf, length_slice]

theorem Holds.del (h : Holds f n s) {k : Nat} (hk : s.pos + k ≤ n) : Holds f n (s.del k) where
  le := hk
  buf := by
    have hle : k ≤ n - s.pos := by omega
    simp only [AnnexBSplitter.del, h.buf, drop_slice f hle]
    congr 1
    omega

theorem Holds.find_none (h : Holds f n s) (hn : find start3 s.buf = none) {p : Nat}
    (hp : s.pos ≤ p) (hl : p + 3 ≤ n) : ¬ At f start3 p := by
  rw [h.buf, find_slice_eq_none_iff f start3 (by decide)] at hn
  have hlen : start3.length = 3 := rfl
  have := hn (p - s.pos) (by omega)
  rwa [Nat.add_sub_cancel' hp] at this

theorem Holds.find_some (h : Holds f n s) {i : Nat} (hi : find start3 s.buf = some i) :
    s.pos + i + 3 ≤ n ∧ At f start3 (s.pos + i) ∧
      ∀ p, s.pos ≤ p → p < s.pos + i → ¬ At f start3 p := by
  rw [h.buf, find_slice_eq_some_iff f start3 (by decide)] at hi
  obtain ⟨hl, ha, hn⟩ := hi
  have hlen : start3.length = 3 := rfl
  have hle := h.le
  refine ⟨by omega, ha, ?_⟩
  intro p hp hlt
  have := hn (p - s.pos) (by omega)
  rwa [Nat.add_sub_cancel' hp] at this

/-- After the first start code. -/
theorem Holds.behind (h : Holds f n s) {i : Nat} (hi : s.pos + i + 3 ≤ n) :
    Holds f n (s.del (i + 3)) ∧ (s.del (i + 3)).buf = s.buf.drop (i + 3) ∧
      (s.del (i + 3)).pos = s.pos + i + 3 :=
  ⟨h.del (by omega), rfl, rfl⟩

theorem Holds.closed (h : Holds f n s) {i k : Nat} (hi : find start3 s.buf = some i)
    (hk : find start3 (s.buf.drop (i + 3)) = some k) :
    Closed f s.pos n (s.pos + i) k ∧
      ((s.buf.drop (i + 3)).take k).rdropWhile (· = 0) = nalAt f (s.pos + i) k := by
  obtain ⟨hl, ha, -⟩ := h.find_some hi
  obtain ⟨hb, -, hpos⟩ := h.behind hl
  obtain ⟨hl', ha', hn'⟩ := hb.find_some hk
  rw [hpos] at hl' ha' hn'
  constructor
  · exact ⟨by omega, hl', ha, ha', fun m hm => hn' _ (by omega) (by omega)⟩
  · have hle : i + 3 ≤ n - s.pos := by omega
    have hk' : k ≤ n - s.pos - (i + 3) := by omega
    rw [h.buf, drop_slice f hle, take_slice f hk', nalAt]
    rfl

/-- The loop returns the NALs that are delimited in the buffer. -/
theorem mem_loop {fuel : Nat} (h : Holds f n s) (hf : s.buf.length < fuel) {p : Nat} {x : Bytes} :
    (p, x) ∈ (s.loop fuel).nals ↔ ∃ j, Closed f s.pos n p j ∧ x = nalAt f p j ∧ x ≠ [] := by
  induction fuel generalizing s with
  | zero => exact absurd hf (Nat.not_lt_zero _)
  | succ fuel ih =>
    cases hi : find start3 s.buf with
    | none =>
      rw [loop_none fuel hi]
      constructor
      · simp
      · rintro ⟨j, hc, -⟩
        have := hc.le
        exact absurd hc.opens (h.find_none hi hc.ge (by omega))
    | some i =>
      obtain ⟨hl, ha, hfirst⟩ := h.find_some hi
      obtain ⟨hb, hbuf, hpos⟩ := h.behind hl
      have hge {j : Nat} (hc : Closed f s.pos n p j) : s.pos + i ≤ p := by
        by_contra hlt
        exact hfirst p hc.ge (by omega) hc.opens
      cases hk : find start3 (s.buf.drop (i + 3)) with
      | none =>
        have hnil : (s.loop (fuel + 1)).nals = [] := by
          rw [loop_open fuel hi hk]
          split <;> rfl
        rw [hnil]
        constructor
        · simp
        · rintro ⟨j, hc, -⟩
          have := hge hc
          rw [← hbuf] at hk
          exact absurd hc.closes (hb.find_none hk (by omega) hc.le)
      | some k =>
        obtain ⟨hck, hnal⟩ := h.closed hi hk
        have hnext : Holds f n (s.del (i + 3 + k)) := h.del (by have := hck.le; omega)
        have hshort : (s.del (i + 3 + k)).buf.length < fuel := by
          rw [hnext.length]
          rw [h.length] at hf
          have hposk : (s.del (i + 3 + k)).pos = s.pos + (i + 3 + k) := rfl
          omega
        rw [loop_closed fuel hi hk, List.mem_append, ih hnext hshort, hnal]
        constructor
        · rintro (hm | ⟨j, hc, hx⟩)
          · by_cases hne : nalAt f (s.pos + i) k = []
            · simp [hne] at hm
            · rw [if_neg hne, List.mem_singleton, Prod.mk.injEq] at hm
              obtain ⟨rfl, rfl⟩ := hm
              exact ⟨k, hck, rfl, hne⟩
          · refine ⟨j, { hc with ge := ?_ }, hx⟩
            have : s.pos + (i + 3 + k) ≤ p := hc.ge
            omega
        · rintro ⟨j, hc, rfl, hne⟩
          rcases Nat.lt_or_eq_of_le (hge hc) with hlt | rfl
          · -- a later NAL starts at the next start code or after it
            refine .inr ⟨j, { hc with ge := ?_ }, rfl, hne⟩
            have h3 := at_disjoint ha hc.opens hlt
            by_contra hbefore
            have hposk : (s.del (i + 3 + k)).pos = s.pos + (i + 3 + k) := rfl
            obtain ⟨d, hd⟩ := Nat.exists_eq_add_of_le h3
            exact hck.next d (by omega) (hd ▸ hc.opens)
          · obtain rfl := hc.unique hck
            rw [if_neg hne]
            exact .inl (List.mem_singleton.mpr rfl)

/-- The last start code of the buffer. -/
structure LastCode (f : Nat → UInt8) (lo hi p : Nat) : Prop where
  ge : lo ≤ p
  le : p + 3 ≤ hi
  opens : At f start3 p
  last : ∀ q, p + 3 ≤ q → q + 3 ≤ hi → ¬ At f start3 q

theorem LastCode.unique {lo lo' hi p q : Nat} (h : LastCode f lo hi p)
    (h' : LastCode f lo' hi q) : p = q := by
  rcases Nat.lt_trichotomy p q with hlt | heq | hgt
  · exact absurd h'.opens (h.last q (at_disjoint h.opens h'.opens hlt) h'.le)
  · exact heq
  · exact absurd h.opens (h'.last p (at_disjoint h'.opens h.opens hgt) h.le)

/-- What is left when the loop ends, and whether the buffer was discarded. -/
inductive LoopEnd (f : Nat → UInt8) (n : Nat) (s : AnnexBSplitter) (r : Fed) : Prop
  | junk : (∀ p, s.pos ≤ p → p + 3 ≤ n → ¬ At f start3 p) → s.pos ≤ r.splitter.pos →
      (r.splitter.pos = s.pos ∨ r.splitter.pos + 2 = n) → r.discards = [] → LoopEnd f n s r
  | kept : LastCode f s.pos n r.splitter.pos → ((n - r.splitter.pos : Nat) : Int) ≤ s.maxNal →
      r.discards = [] → LoopEnd f n s r
  | dropped {p : Nat} : LastCode f s.pos n p → s.maxNal < ((n - p : Nat) : Int) →
      r.splitter.pos = n → r.discards = [n] → LoopEnd f n s r

theorem LastCode.mono {lo lo' hi p : Nat} (hlo : lo ≤ lo') (h : LastCode f lo' hi p) :
    LastCode f lo hi p :=
  { h with ge := Nat.le_trans hlo h.ge }

theorem Holds.lastCode_iff (h : Holds f n s) (a : Nat) :
    LastCode f s.pos n (s.pos + a) ↔
      start3 <+: s.buf.drop a ∧ find start3 (s.buf.drop (a + 3)) = none := by
  have hlen : start3.length = 3 := rfl
  have hle := h.le
  rw [h.buf, prefix_drop_slice_iff f start3 (by decide)]
  constructor
  · intro hl
    have hend := hl.le
    refine ⟨⟨by omega, hl.opens⟩, ?_⟩
    rw [drop_slice f (by omega), find_slice_eq_none_iff f start3 (by decide)]
    intro k hk
    exact hl.last _ (by omega) (by omega)
  · rintro ⟨⟨hend, ha⟩, hn⟩
    rw [drop_slice f (by omega), find_slice_eq_none_iff f start3 (by decide)] at hn
    refine ⟨by omega, by omega, ha, ?_⟩
    intro p hp hl
    have := hn (p - (s.pos + a + 3)) (by omega)
    rwa [show s.pos + (a + 3) + (p - (s.pos + a + 3)) = p by omega] at this

theorem loop_end {fuel : Nat} (h : Holds f n s) (hf : s.buf.length < fuel) :
    Holds f n (s.loop fuel).splitter ∧ LoopEnd f n s (s.loop fuel) := by
  induction fuel generalizing s with
  | zero => exact absurd hf (Nat.not_lt_zero _)
  | succ fuel ih =>
    have hlen := h.length
    have hle := h.le
    cases hi : find start3 s.buf with
    | none =>
      rw [loop_none fuel hi, hlen]
      have hpos : (s.del (n - s.pos - 2)).pos = s.pos + (n - s.pos - 2) := rfl
      refine ⟨h.del (by omega), .junk (fun p => h.find_none hi) ?_ ?_ rfl⟩
      · simp only [hpos]
        omega
      · simp only [hpos]
        omega
    | some i =>
      obtain ⟨hl, ha, -⟩ := h.find_some hi
      cases hk : find start3 (s.buf.drop (i + 3)) with
      | none =>
        have hlast := (h.lastCode_iff i).mpr ⟨((find_eq_some_iff ..).mp hi).2.1, hk⟩
        have hdrop : (s.buf.drop i).length = n - (s.pos + i) := by
          rw [List.length_drop, hlen]
          omega
        rw [loop_open fuel hi hk, hdrop, hlen]
        have hend : s.pos + (n - s.pos) = n := by omega
        split
        · rename_i hmax
          exact ⟨h.del (by omega), .dropped hlast hmax hend (by rw [hend])⟩
        · rename_i hmax
          exact ⟨h.del (by omega), .kept hlast (Int.not_lt.mp hmax) rfl⟩
      | some k =>
        obtain ⟨hck, -⟩ := h.closed hi hk
        have hhi := hck.le
        have hnext : Holds f n (s.del (i + 3 + k)) := h.del (by omega)
        have hposk : (s.del (i + 3 + k)).pos = s.pos + (i + 3 + k) := rfl
        have hshort : (s.del (i + 3 + k)).buf.length < fuel := by
          rw [hnext.length]
          omega
        obtain ⟨h₁, h₂⟩ := ih hnext hshort
        rw [loop_closed fuel hi hk]
        refine ⟨h₁, ?_⟩
        cases h₂ with
        | junk hno =>
          -- the start code that ended the last NAL is still there
          exact absurd hck.closes (hno _ (by omega) (by omega))
        | kept hlast hmax hd => exact .kept (hlast.mono (by omega)) hmax hd
        | dropped hlast hmax hp hd => exact .dropped (hlast.mono (by omega)) hmax hp hd

end holds

/-- More of the stream. -/
theorem Holds.append {f : Nat → UInt8} {n : Nat} {s : AnnexBSplitter} {data : Bytes}
    (h : Holds f n s) (hdata : data = slice f n data.length) :
    Holds f (n + data.length) { s with buf := s.buf ++ data } := by
  have hle := h.le
  refine ⟨by simp only; omega, ?_⟩
  have happ := slice_append f s.pos (n - s.pos) data.length
  rw [Nat.add_sub_cancel' hle, ← hdata, ← h.buf] at happ
  simp only [happ]
  congr 1
  omega

/-- What one call of `feed` does to a splitter that holds the stream up to `n`. -/
theorem feed_spec {f : Nat → UInt8} {n : Nat} {s : AnnexBSplitter} {data : Bytes} (h : Holds f n s)
    (hdata : data = slice f n data.length) :
    (∀ p x, (p, x) ∈ (s.feed data).nals ↔
      ∃ j, Closed f s.pos (n + data.length) p j ∧ x = nalAt f p j ∧ x ≠ []) ∧
    Holds f (n + data.length) (s.feed data).splitter ∧
    LoopEnd f (n + data.length) s (s.feed data) := by
  have hs := h.append hdata
  have hf := Nat.lt_succ_self (s.buf ++ data).length
  refine ⟨fun p x => mem_loop hs hf, (loop_end hs hf).1, ?_⟩
  cases (loop_end hs hf).2 with
  | junk h₁ h₂ h₃ h₄ => exact .junk h₁ h₂ h₃ h₄
  | kept h₁ h₂ h₃ => exact .kept h₁ h₂ h₃
  | dropped h₁ h₂ h₃ h₄ => exact .dropped h₁ h₂ h₃ h₄

end AnnexBSplitter
end DvrBridge
