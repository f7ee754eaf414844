import DvrBridge.Bytes
import DvrBridge.Search
import Mathlib.Data.List.DropRight

/-! Annex-B access units: NAL types and the whole-buffer splitter. -/
namespace DvrBridge.H264
open Search

def nalIdr : Int := 5
def nalSps : Int := 7
def nalPps : Int := 8

def start3 : Bytes := [0, 0, 1]
def start4 : Bytes := [0, 0, 0, 1]

def nalType : Bytes → Int
  | [] => -1
  | b :: _ => (b &&& 0x1F).toNat

def isVcl (ntype : Int) : Bool := decide (1 ≤ ntype ∧ ntype ≤ 5)

/-- The loop of `iterNals` from a start code on; `rest` is the buffer after it. Every round
consumes a start code, so the buffer's length is fuel enough. -/
def iterNalsFrom : Nat → Bytes → List Bytes
  | 0, _ => []
  | fuel + 1, rest =>
    match find start3 rest with
    | none => if rest = [] then [] else [rest]
    | some j =>
      -- trailing zeros belong to the next start code
      let nal := (rest.take j).rdropWhile (· = 0)
      (if nal = [] then [] else [nal]) ++ iterNalsFrom fuel (rest.drop (j + 3))

def iterNals (buf : Bytes) : List Bytes :=
  match find start3 buf with
  | none => []
  | some i => iterNalsFrom buf.length (buf.drop (i + 3))

theorem ne_nil_of_mem_iterNalsFrom (fuel : Nat) (rest n : Bytes)
    (h : n ∈ iterNalsFrom fuel rest) : n ≠ [] := by
  induction fuel generalizing rest with
  | zero => simp [iterNalsFrom] at h
  | succ fuel ih =>
    rw [iterNalsFrom] at h
    split at h
    · by_cases hr : rest = []
      · simp [hr] at h
      · rw [if_neg hr, List.mem_singleton] at h
        exact h ▸ hr
    · rename_i j _
      rcases List.mem_append.mp h with h | h
      · by_cases hn : (rest.take j).rdropWhile (· = 0) = []
        · simp [hn] at h
        · rw [if_neg hn, List.mem_singleton] at h
          exact h ▸ hn
      · exact ih _ h

/-- The splitter yields no empty NAL. -/
theorem ne_nil_of_mem_iterNals (buf n : Bytes) (h : n ∈ iterNals buf) : n ≠ [] := by
  unfold iterNals at h
  split at h
  · simp at h
  · exact ne_nil_of_mem_iterNalsFrom _ _ _ h

end DvrBridge.H264
