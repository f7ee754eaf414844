import DvrBridge.AnnexB

/-! The incremental Annex-B splitter, and its agreement with the whole-buffer one. -/
namespace DvrBridge
open H264 Search

/-- `pos` is ghost: how much of the stream comes before `buf`. -/
structure AnnexBSplitter where
  buf : Bytes := []
  maxNal : Int := 2 * 1024 * 1024
  pos : Nat := 0
  deriving DecidableEq

/-- What feeding leaves and returns. The place of each NAL's start code in the stream and the
places where the buffer was discarded are ghost. -/
structure Fed where
  splitter : AnnexBSplitter
  nals : List (Nat × Bytes) := []
  discards : List Nat := []
  deriving DecidableEq

namespace AnnexBSplitter

/-- `del self._buf[:k]` -/
def del (s : AnnexBSplitter) (k : Nat) : AnnexBSplitter :=
  { s with buf := s.buf.drop k, pos := s.pos + k }

/-- The loop of `feed`. Every round but the last deletes a start code, so one round more than the
buffer has bytes is fuel enough. -/
def loop : Nat → AnnexBSplitter → Fed
  | 0, s => { splitter := s }
  | fuel + 1, s =>
    match find start3 s.buf with
    | none =>
      -- keep only a tail that could hold a start code
      { splitter := if 2 < s.buf.length then s.del (s.buf.length - 2) else s }
    | some i =>
      match find start3 (s.buf.drop (i + 3)) with
      | none =>
        let s := if i ≠ 0 then s.del i else s
        if s.maxNal < s.buf.length then
          -- runaway; drop and resync
          { splitter := s.del s.buf.length, discards := [s.pos + s.buf.length] }
        else { splitter := s }
      | some k =>
        let nal := ((s.buf.drop (i + 3)).take k).rdropWhile (· = 0)
        let r := loop fuel (s.del (i + 3 + k))
        { r with nals := (if nal = [] then [] else [(s.pos + i, nal)]) ++ r.nals }

def feed (s : AnnexBSplitter) (data : Bytes) : Fed :=
  let s := { s with buf := s.buf ++ data }
  s.loop (s.buf.length + 1)

/-- A sequence of calls. -/
def feedAll (s : AnnexBSplitter) : List Bytes → Fed
  | [] => { splitter := s }
  | data :: chunks =>
    let r := s.feed data
    let t := r.splitter.feedAll chunks
    { splitter := t.splitter, nals := r.nals ++ t.nals, discards := r.discards ++ t.discards }

theorem feedAll_concat (s : AnnexBSplitter) (chunks : List Bytes) (data : Bytes) :
    s.feedAll (chunks ++ [data]) =
      { splitter := ((s.feedAll chunks).splitter.feed data).splitter
        nals := (s.feedAll chunks).nals ++ ((s.feedAll chunks).splitter.feed data).nals
        discards := (s.feedAll chunks).discards ++
          ((s.feedAll chunks).splitter.feed data).discards } := by
  induction chunks generalizing s with
  | nil => simp [feedAll]
  | cons c chunks ih => simp only [List.cons_append, feedAll, ih, List.append_assoc]

theorem del_zero (s : AnnexBSplitter) : s.del 0 = s := rfl

theorem ite_del (s : AnnexBSplitter) (i : Nat) : (if i ≠ 0 then s.del i else s) = s.del i := by
  by_cases h : i = 0
  · rw [h]
    rfl
  · rw [if_pos h]

/-- Without a start code at most two bytes are kept. -/
theorem loop_none {s : AnnexBSplitter} (fuel : Nat) (h : find start3 s.buf = none) :
    s.loop (fuel + 1) = { splitter := s.del (s.buf.length - 2) } := by
  simp only [loop, h]
  split
  · rfl
  · have h0 : s.buf.length - 2 = 0 := by omega
    rw [h0, del_zero]

/-- With a start code and none after it the buffer is kept from there, unless it is too long. -/
theorem loop_open {s : AnnexBSplitter} (fuel : Nat) {i : Nat} (hi : find start3 s.buf = some i)
    (hn : find start3 (s.buf.drop (i + 3)) = none) :
    s.loop (fuel + 1) =
      if s.maxNal < (s.buf.drop i).length then
        { splitter := s.del s.buf.length, discards := [s.pos + s.buf.length] }
      else { splitter := s.del i } := by
  have hl : i + (s.buf.drop i).length = s.buf.length := by
    have := find_lt start3 s.buf i hi
    rw [List.length_drop]
    omega
  have hdel : (s.del i).del (s.del i).buf.length = s.del s.buf.length := by
    simp only [del, List.drop_drop, Nat.add_assoc, hl]
  have hpos : (s.del i).pos + (s.del i).buf.length = s.pos + s.buf.length := by
    simp only [del, Nat.add_assoc, hl]
  simp only [loop, hi, hn, ite_del, hdel, hpos]
  rfl

theorem loop_closed {s : AnnexBSplitter} (fuel : Nat) {i k : Nat} (hi : find start3 s.buf = some i)
    (hk : find start3 (s.buf.drop (i + 3)) = some k) :
    s.loop (fuel + 1) =
      { s.del (i + 3 + k) |>.loop fuel with
        nals := (if ((s.buf.drop (i + 3)).take k).rdropWhile (· = 0) = [] then []
            else [(s.pos + i, ((s.buf.drop (i + 3)).take k).rdropWhile (· = 0))]) ++
          ((s.del (i + 3 + k)).loop fuel).nals } := by
  simp only [loop, hi, hk]

/-- The loop on a buffer with a start code. -/
theorem loop_pieces {s : AnnexBSplitter} {p t : Bytes} {ps : List Bytes} {fuel : Nat}
    (h : Pieces start3 s.buf (p :: ps) t) (hf : s.buf.length < fuel) :
    (s.loop fuel).nals.map (·.2) = closedNals ps ∧
      ((s.loop fuel).discards = [] → (s.loop fuel).splitter.buf = start3 ++ t) := by
  induction ps generalizing s p fuel with
  | nil =>
    cases fuel with
    | zero => exact absurd hf (Nat.not_lt_zero _)
    | succ fuel =>
      cases h with
      | @cut _ _ _ i hi hrest =>
        cases hrest with
        | last hn =>
          rw [loop_open fuel hi hn]
          obtain ⟨-, ⟨r, hr⟩, -⟩ := (find_eq_some_iff ..).mp hi
          split
          · exact ⟨rfl, fun hd => by simp at hd⟩
          · refine ⟨rfl, fun _ => ?_⟩
            rw [← List.drop_drop, ← hr, List.drop_left]
            exact hr.symm
  | cons q ps ih =>
    cases fuel with
    | zero => exact absurd hf (Nat.not_lt_zero _)
    | succ fuel =>
      cases h with
      | @cut _ _ _ i hi hrest =>
        cases hrest with
        | @cut _ _ _ k hk hrest =>
          rw [loop_closed fuel hi hk]
          -- the next round starts at the start code that ended this one
          have hnext : Pieces start3 (s.del (i + 3 + k)).buf ([] :: ps) t := by
            have hfrom := Pieces.of_delimiter unbordered_start3 (by decide) hk hrest
            rwa [List.drop_drop] at hfrom
          have hshort : (s.del (i + 3 + k)).buf.length < fuel := by
            have hl := find_lt start3 _ i hi
            have hlen : start3.length = 3 := rfl
            simp only [del, List.length_drop]
            omega
          obtain ⟨h₁, h₂⟩ := ih hnext hshort
          refine ⟨?_, h₂⟩
          have hone (n : Bytes) : (if n = [] then [] else [(s.pos + i, n)]).map (·.2) =
              if n = [] then [] else [n] := by
            split <;> rfl
          rw [List.map_append, h₁, hone, closedNals_cons]
          rfl

/-- The open NAL is dropped when it is too long, and without one at most two bytes are kept. -/
theorem loop_bounds {s : AnnexBSplitter} {fuel : Nat} (hf : s.buf.length < fuel) :
    (s.loop fuel).splitter.maxNal = s.maxNal ∧
      ((s.loop fuel).splitter.buf.length : Int) ≤ max s.maxNal 2 := by
  induction fuel generalizing s with
  | zero => exact absurd hf (Nat.not_lt_zero _)
  | succ fuel ih =>
    cases hi : find start3 s.buf with
    | none =>
      rw [loop_none fuel hi]
      refine ⟨rfl, ?_⟩
      simp only [del, List.length_drop]
      omega
    | some i =>
      cases hk : find start3 (s.buf.drop (i + 3)) with
      | none =>
        rw [loop_open fuel hi hk]
        split
        · refine ⟨rfl, ?_⟩
          simp only [del, List.drop_length, List.length_nil]
          omega
        · refine ⟨rfl, ?_⟩
          simp only [del]
          omega
      | some k =>
        rw [loop_closed fuel hi hk]
        have hl := find_lt start3 _ i hi
        have hlen : start3.length = 3 := rfl
        apply ih (s := s.del (i + 3 + k))
        simp only [del, List.length_drop]
        omega

theorem feed_none {s : AnnexBSplitter} {data : Bytes} (h : find start3 (s.buf ++ data) = none) :
    (s.feed data).nals = [] ∧ (s.feed data).splitter.buf =
      (s.buf ++ data).drop ((s.buf ++ data).length - 2) := by
  rw [feed, loop_none (s := { s with buf := s.buf ++ data }) _ h]
  exact ⟨rfl, rfl⟩

theorem feed_pieces {s : AnnexBSplitter} {data p t : Bytes} {ps : List Bytes}
    (h : Pieces start3 (s.buf ++ data) (p :: ps) t) :
    (s.feed data).nals.map (·.2) = closedNals ps ∧
      ((s.feed data).discards = [] → (s.feed data).splitter.buf = start3 ++ t) :=
  loop_pieces (s := { s with buf := s.buf ++ data }) h (Nat.lt_succ_self _)

theorem feed_bounds (s : AnnexBSplitter) (data : Bytes) :
    (s.feed data).splitter.maxNal = s.maxNal ∧
      ((s.feed data).splitter.buf.length : Int) ≤ max s.maxNal 2 :=
  loop_bounds (s := { s with buf := s.buf ++ data }) (Nat.lt_succ_self _)

/-- The open bytes after the last start code, when there are any. -/
def openBytes (stream : Bytes) : List Bytes :=
  match find start3.reverse stream.reverse with
  | none => []
  | some k => openNal (stream.drop (stream.length - k))

theorem openBytes_nil {stream t : Bytes} (h : Pieces start3 stream [] t) :
    openBytes stream = [] := by
  cases h with
  | last hf =>
    have hr : find start3.reverse stream.reverse = none := by
      rw [find_eq_none_iff_absent, List.reverse_infix, ← find_eq_none_iff_absent]
      exact hf
    simp only [openBytes, hr]

theorem openBytes_cons {stream p t : Bytes} {ps : List Bytes}
    (h : Pieces start3 stream (p :: ps) t) : openBytes stream = openNal t := by
  obtain ⟨front, rfl⟩ := h.exists_append
  have ht : find start3.reverse t.reverse = none := by
    rw [find_eq_none_iff_absent, List.reverse_infix, ← find_eq_none_iff_absent]
    exact h.find_tail
  have hb : Unbordered start3.reverse := by decide
  have hr := hb.find_append ht front.reverse
  rw [← List.reverse_append, ← List.reverse_append, List.append_assoc, List.length_reverse] at hr
  have hdrop : (front ++ (start3 ++ t)).drop ((front ++ (start3 ++ t)).length - t.length) = t := by
    rw [← List.append_assoc, List.length_append, Nat.add_sub_cancel, List.drop_left]
  simp only [openBytes, hr, hdrop]

/-- A splitter that has discarded nothing of `stream`. -/
inductive Agrees (stream : Bytes) (r : Fed) : Prop
  | junk {t : Bytes} : Pieces start3 stream [] t →
      r.splitter.buf = stream.drop (stream.length - 2) → r.nals = [] → Agrees stream r
  | started {p t : Bytes} {ps : List Bytes} : Pieces start3 stream (p :: ps) t →
      r.splitter.buf = start3 ++ t → r.nals.map (·.2) = closedNals ps → Agrees stream r

/-- No start code begins more than two bytes before the end of a stretch without one. -/
theorem not_prefix_drop {stream : Bytes} (data : Bytes) (h : find start3 stream = none) :
    ∀ i < stream.length - 2, ¬ start3 <+: (stream ++ data).drop i := by
  intro i hi hocc
  have hlen : start3.length = 3 := rfl
  rw [prefix_drop_append_iff start3 stream data i (by omega)] at hocc
  exact (find_eq_none_iff ..).mp h i (by omega) hocc

theorem Agrees.feed {stream : Bytes} {r : Fed} (h : Agrees stream r) (data : Bytes)
    (hd : (r.splitter.feed data).discards = []) :
    Agrees (stream ++ data)
      { splitter := (r.splitter.feed data).splitter
        nals := r.nals ++ (r.splitter.feed data).nals
        discards := r.discards ++ (r.splitter.feed data).discards } := by
  cases h with
  | @junk t hp hbuf hnals =>
    have hnone : find start3 stream = none := by
      cases hp with
      | last hf => exact hf
    have hk := not_prefix_drop data hnone
    have hle : stream.length - 2 ≤ (stream ++ data).length := by
      rw [List.length_append]
      omega
    have hdrop : stream.drop (stream.length - 2) ++ data =
        (stream ++ data).drop (stream.length - 2) := by
      rw [List.drop_append_of_le_length (by omega)]
    rw [← hbuf] at hdrop
    obtain ⟨ps, t', hps⟩ := exists_pieces start3_ne_nil (r.splitter.buf ++ data)
    have hpieces := hps
    rw [hdrop] at hpieces
    rw [hnals, List.nil_append]
    cases ps with
    | nil =>
      cases hps with
      | last hf =>
        obtain ⟨h₁, h₂⟩ := feed_none hf
        refine .junk (hpieces.of_drop_nil hk hle) ?_ h₁
        simp only [h₂, hdrop, List.drop_drop, List.length_drop, List.length_append]
        congr 1
        omega
    | cons p ps =>
      obtain ⟨h₁, h₂⟩ := feed_pieces hps
      exact .started (hpieces.of_drop hk hle) (h₂ hd) h₁
  | @started p t ps hp hbuf hnals =>
    obtain ⟨qs, t', hqs⟩ := exists_pieces start3_ne_nil (t ++ data)
    have hall : Pieces start3 (r.splitter.buf ++ data) ([] :: qs) t' := by
      rw [hbuf, List.append_assoc]
      exact hqs.behind unbordered_start3 (by decide)
    obtain ⟨h₁, h₂⟩ := feed_pieces hall
    have hwhole : Pieces start3 (stream ++ data) (p :: (ps ++ qs)) t' := hp.append hqs
    refine .started hwhole (h₂ hd) ?_
    rw [List.map_append, hnals, h₁, closedNals_append]

theorem agrees_feedAll (maxNal : Int) (chunks : List Bytes)
    (hd : (({ maxNal := maxNal } : AnnexBSplitter).feedAll chunks).discards = []) :
    Agrees chunks.flatten (({ maxNal := maxNal } : AnnexBSplitter).feedAll chunks) := by
  induction chunks using List.reverseRecOn with
  | nil => exact .junk (.last (by decide)) rfl rfl
  | append_singleton chunks data ih =>
    rw [feedAll_concat] at hd ⊢
    obtain ⟨h₁, h₂⟩ := List.append_eq_nil_iff.mp hd
    rw [List.flatten_append, List.flatten_singleton]
    exact (ih h₁).feed data h₂

theorem feedAll_bounds (s : AnnexBSplitter) (chunks : List Bytes)
    (h : (s.buf.length : Int) ≤ max s.maxNal 2) :
    (s.feedAll chunks).splitter.maxNal = s.maxNal ∧
      ((s.feedAll chunks).splitter.buf.length : Int) ≤ max s.maxNal 2 := by
  induction chunks using List.reverseRecOn with
  | nil => exact ⟨rfl, h⟩
  | append_singleton chunks data ih =>
    have hfeed := (s.feedAll chunks).splitter.feed_bounds data
    rw [ih.1] at hfeed
    rw [feedAll_concat]
    exact hfeed

/-- However a byte string is cut into chunks, a splitter that discards nothing returns what the
whole-buffer splitter yields, up to the open bytes; and its buffer never exceeds the limit. -/
theorem feedAll_agrees (maxNal : Int) (chunks : List Bytes) :
    ((({ maxNal := maxNal } : AnnexBSplitter).feedAll chunks).discards = [] →
      (({ maxNal := maxNal } : AnnexBSplitter).feedAll chunks).nals.map (·.2) ++
        openBytes chunks.flatten = iterNals chunks.flatten) ∧
    ((({ maxNal := maxNal } : AnnexBSplitter).feedAll chunks).splitter.buf.length : Int) ≤
      max maxNal 2 := by
  constructor
  · intro hd
    cases agrees_feedAll maxNal chunks hd with
    | junk hp _ hnals => rw [hnals, openBytes_nil hp, iterNals_eq_nil hp, List.map_nil,
        List.append_nil]
    | started hp _ hnals => rw [hnals, openBytes_cons hp, iterNals_eq hp]
  · apply (feedAll_bounds _ chunks _).2
    simp only [List.length_nil]
    omega

/-- A start code cut in its middle. -/
theorem feedAll_agrees_cut :
    (({ maxNal := 8 } : AnnexBSplitter).feedAll [[0, 0, 1, 0x67, 0], [0, 0, 1, 0x68]]).nals.map (·.2)
      ++ openBytes [0, 0, 1, 0x67, 0, 0, 0, 1, 0x68] = iterNals [0, 0, 1, 0x67, 0, 0, 0, 1, 0x68] :=
  (feedAll_agrees 8 [[0, 0, 1, 0x67, 0], [0, 0, 1, 0x68]]).1 (by decide)

end AnnexBSplitter
end DvrBridge
