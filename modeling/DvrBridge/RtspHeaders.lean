import DvrBridge.RtspMessage

/-! The header map that `_read_request` builds from the lines of a request. -/
namespace DvrBridge
open PyText

namespace Headers

/-- `headers[k] = v` -/
def put (h : Headers) (k v : Str) : Headers :=
  if h.any (·.1 = k) then h.map fun e => if e.1 = k then (k, v) else e else h ++ [(k, v)]

/-- One line of the head, decoded; a line without a colon is passed over. -/
def addLine (h : Headers) (line : Str) : Headers :=
  if ':' ∈ line then
    let (k, v) := partition ':' line
    h.put (lower (strip k)) (strip v)
  else h

def ofLines (lines : List Str) : Headers := lines.foldl addLine []

end Headers

/-- What `readline` returns: a line feed can only be its last character. -/
def ReadLine (line : Str) : Prop := '\n' ∉ line.dropLast

/-- No value has a line feed in it. -/
def Headers.OneLine (h : Headers) : Prop := ∀ e ∈ h, '\n' ∉ e.2

theorem ReadLine.suffix {v line : Str} (h : ReadLine line) (hs : v <:+ line) : ReadLine v := by
  obtain ⟨t, rfl⟩ := hs
  by_cases hv : v = []
  · simp [ReadLine, hv]
  · rw [ReadLine, List.dropLast_append_of_ne_nil hv] at h
    exact fun hm => h (List.mem_append_right t hm)

/-- `strip` removes the line feed at the end. -/
theorem ReadLine.strip {v : Str} (h : ReadLine v) : '\n' ∉ strip v := by
  have hw := h.suffix (List.dropWhile_suffix isSpace)
  intro hm
  obtain ⟨t, ht⟩ := List.rdropWhile_prefix isSpace (l := v.dropWhile isSpace)
  have hne : (v.dropWhile isSpace).rdropWhile isSpace ≠ [] := List.ne_nil_of_mem hm
  rw [ReadLine, ← ht] at hw
  by_cases hnil : t = []
  · rw [hnil, List.append_nil] at hw
    have hlast := List.rdropWhile_last_not isSpace (v.dropWhile isSpace) hne
    have hsplit := List.dropLast_append_getLast hne
    have hmem := hm
    rw [PyText.strip, ← hsplit, List.mem_append, List.mem_singleton] at hmem
    rcases hmem with hmem | hmem
    · exact hw hmem
    · rw [← hmem] at hlast
      exact hlast (by decide)
  · rw [List.dropLast_append_of_ne_nil hnil] at hw
    exact hw (List.mem_append_left _ hm)

theorem Headers.OneLine.addLine {h : Headers} {line : Str} (hh : h.OneLine)
    (hl : ReadLine line) : (h.addLine line).OneLine := by
  unfold Headers.addLine
  split
  · have hv : '\n' ∉ PyText.strip (partition ':' line).2 :=
      (hl.suffix ((List.tail_suffix _).trans (List.dropWhile_suffix _))).strip
    simp only
    unfold Headers.put
    intro e he
    split at he
    · obtain ⟨d, hd, rfl⟩ := List.mem_map.mp he
      split
      · exact hv
      · exact hh d hd
    · rcases List.mem_append.mp he with he | he
      · exact hh e he
      · rw [List.mem_singleton.mp he]
        exact hv
  · exact hh

theorem oneLine_ofLines {lines : List Str} (h : ∀ l ∈ lines, ReadLine l) :
    (Headers.ofLines lines).OneLine := by
  have hgen : ∀ (lines : List Str) (hs : Headers), (∀ l ∈ lines, ReadLine l) → hs.OneLine →
      (lines.foldl Headers.addLine hs).OneLine := by
    intro lines
    induction lines with
    | nil => exact fun _ _ hs => hs
    | cons l lines ih =>
      intro hs hl hh
      exact ih _ (fun x hx => hl x (List.mem_cons_of_mem l hx))
        (hh.addLine (hl l (List.mem_cons_self ..)))
  exact hgen lines [] h (by simp [Headers.OneLine])

theorem newline_not_mem_get {h : Headers} (hh : h.OneLine) (name default : String)
    (hd : '\n' ∉ default.toList) : '\n' ∉ h.get name default := by
  unfold Headers.get
  cases hl : h.lookup name.toList with
  | none => exact hd
  | some v =>
    obtain ⟨l, r, rfl, -⟩ := List.lookup_eq_some_iff.mp hl
    exact hh (name.toList, v) (by simp)

end DvrBridge
