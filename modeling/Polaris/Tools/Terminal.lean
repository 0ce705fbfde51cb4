import Mathlib.Data.List.Basic
import Mathlib.Data.Nat.Notation
import Mathlib.Tactic.Common

namespace Polaris.Terminal

abbrev Bytes := List UInt8

/-- A pipe: what is buffered, what will be fed to it before its end, and how many feeds come before
each read without being waited for. -/
structure StreamReader where
  buffer : Bytes
  feeds : List Bytes
  early : List ℕ
  feeds_ne_nil : ∀ feed ∈ feeds, feed ≠ []

namespace StreamReader

def feedData (reader : StreamReader) (k : ℕ) : StreamReader where
  buffer := reader.buffer ++ (reader.feeds.take k).flatten
  feeds := reader.feeds.drop k
  early := reader.early
  feeds_ne_nil feed hfeed := reader.feeds_ne_nil feed (List.mem_of_mem_drop hfeed)

def arrive (reader : StreamReader) : StreamReader :=
  { reader.feedData (reader.early.headD 0) with early := reader.early.tail }

def waitForData (reader : StreamReader) : StreamReader :=
  if reader.buffer = [] then reader.feedData 1 else reader

/-- `stream.read`, for a positive number of bytes. -/
def read (reader : StreamReader) (n : ℕ) : Bytes × StreamReader :=
  let ready := reader.arrive.waitForData
  (ready.buffer.take n, { ready with buffer := ready.buffer.drop n })

/-- The bytes up to the end of the stream. -/
def unread (reader : StreamReader) : Bytes := reader.buffer ++ reader.feeds.flatten

variable {reader : StreamReader} {n k : ℕ}

@[simp] theorem unread_feedData : (reader.feedData k).unread = reader.unread := by
  unfold unread feedData
  rw [List.append_assoc, ← List.flatten_append, List.take_append_drop]

theorem unread_arrive : reader.arrive.unread = reader.unread :=
  @unread_feedData reader (reader.early.headD 0)

theorem unread_waitForData : reader.waitForData.unread = reader.unread := by
  unfold waitForData
  split
  · exact unread_feedData
  · rfl

theorem unread_read (reader : StreamReader) (n : ℕ) :
    (reader.read n).1 ++ (reader.read n).2.unread = reader.unread := by
  have hready : reader.arrive.waitForData.unread = reader.unread :=
    unread_waitForData.trans unread_arrive
  rw [← hready]
  unfold read unread
  rw [← List.append_assoc, List.take_append_drop]

/-- A reader waits only where the buffer is empty, and then for bytes. -/
theorem buffer_waitForData (h : reader.waitForData.buffer = []) : reader.unread = [] := by
  unfold waitForData at h
  split at h
  · rename_i hbuffer
    cases hfeeds : reader.feeds with
    | nil => simp [unread, hbuffer, hfeeds]
    | cons feed feeds =>
        have hfeed : feed = [] := by simpa [feedData, hbuffer, hfeeds] using h
        exact absurd hfeed (reader.feeds_ne_nil feed (by simp [hfeeds]))
  · rename_i hbuffer
    exact absurd h hbuffer

theorem unread_of_read_nil (hn : 0 < n) (h : (reader.read n).1 = []) : reader.unread = [] := by
  have hbuffer : reader.arrive.waitForData.buffer = [] := by
    rcases List.take_eq_nil_iff.1 h with hzero | hbuffer
    · omega
    · exact hbuffer
  rw [← unread_arrive]
  exact buffer_waitForData hbuffer

theorem length_unread_read (h : (reader.read n).1 ≠ []) :
    (reader.read n).2.unread.length < reader.unread.length := by
  have hlength := congrArg List.length (unread_read reader n)
  have hpos := List.length_pos_iff.2 h
  rw [List.length_append] at hlength
  omega

end StreamReader

structure Capture where
  chunks : List Bytes
  retained : ℕ
  truncated : Bool

/-- One pass of the loop, for a chunk that is not the end. -/
def Capture.add (limit : ℕ) (capture : Capture) (chunk : Bytes) : Capture :=
  let remaining := limit - capture.retained
  let kept :=
    if 0 < remaining then
      { capture with
        chunks := capture.chunks ++ [chunk.take remaining]
        retained := capture.retained + min chunk.length remaining }
    else capture
  if remaining < chunk.length then { kept with truncated := true } else kept

def readLoop (limit : ℕ) (capture : Capture) (reader : StreamReader) : Capture × StreamReader :=
  if _h : (reader.read (64 * 1024)).1 = [] then (capture, (reader.read (64 * 1024)).2)
  else
    readLoop limit (capture.add limit (reader.read (64 * 1024)).1) (reader.read (64 * 1024)).2
termination_by reader.unread.length
decreasing_by exact StreamReader.length_unread_read _h

/-- What is returned, and the stream that is left behind. -/
def readLimited (limit : ℕ) : Option StreamReader → (Bytes × Bool) × Option StreamReader
  | none => (([], false), none)
  | some reader =>
      let ended := readLoop limit ⟨[], 0, false⟩ reader
      ((ended.1.chunks.flatten, ended.1.truncated), some ended.2)

/-- What has been kept of the bytes seen so far. -/
structure Capture.Of (limit : ℕ) (seen : Bytes) (capture : Capture) : Prop where
  kept : capture.chunks.flatten = seen.take limit
  retained : capture.retained = min limit seen.length
  truncated : capture.truncated = decide (limit < seen.length)

section Capturing
variable {limit : ℕ} {seen chunk : Bytes} {capture : Capture} {reader : StreamReader}

theorem Capture.of_nil : Capture.Of limit [] ⟨[], 0, false⟩ := by
  refine ⟨?_, ?_, ?_⟩ <;> simp

theorem Capture.Of.add (h : Capture.Of limit seen capture) :
    Capture.Of limit (seen ++ chunk) (capture.add limit chunk) := by
  obtain ⟨hkept, hretained, htruncated⟩ := h
  have hremaining : limit - capture.retained = limit - seen.length := by omega
  have hchunks : (capture.add limit chunk).chunks.flatten = (seen ++ chunk).take limit := by
    rw [List.take_append, ← hkept, ← hremaining]
    unfold Capture.add
    by_cases hroom : 0 < limit - capture.retained
    · simp only [if_pos hroom]
      split <;> simp
    · have hzero : limit - capture.retained = 0 := by omega
      simp only [hzero]
      split <;> simp
  have hlength : (capture.add limit chunk).retained = min limit (seen ++ chunk).length := by
    rw [List.length_append]
    unfold Capture.add
    by_cases hroom : 0 < limit - capture.retained
    · simp only [if_pos hroom]
      split <;> (simp only; omega)
    · simp only [if_neg hroom]
      split
      · simp only
        omega
      · omega
  refine ⟨hchunks, hlength, ?_⟩
  -- what was cut off before leaves no room, so that the next chunk is cut off as well
  unfold Capture.add
  rw [List.length_append]
  by_cases hcut : limit - capture.retained < chunk.length
  · simp only [if_pos hcut]
    symm
    rw [decide_eq_true_eq]
    omega
  · simp only [if_neg hcut]
    by_cases hroom : 0 < limit - capture.retained
    · simp only [if_pos hroom]
      rw [htruncated]
      exact decide_eq_decide.2 (by omega)
    · simp only [if_neg hroom]
      rw [htruncated]
      exact decide_eq_decide.2 (by omega)

theorem readLoop_of (h : Capture.Of limit seen capture) :
    Capture.Of limit (seen ++ reader.unread) (readLoop limit capture reader).1 ∧
      (readLoop limit capture reader).2.unread = [] := by
  fun_induction readLoop limit capture reader generalizing seen with
  | case1 capture reader hend =>
      have hunread := StreamReader.unread_of_read_nil (by omega) hend
      have hread := reader.unread_read (64 * 1024)
      rw [hend, List.nil_append] at hread
      rw [hunread, List.append_nil]
      exact ⟨h, hread.trans hunread⟩
  | case2 capture reader hmore ih =>
      rw [← reader.unread_read (64 * 1024), ← List.append_assoc]
      exact ih h.add

end Capturing

/-- However the bytes arrive, the first of them are kept and the stream is read to its end. -/
theorem readLimited_keeps_prefix (limit : ℕ) (reader : StreamReader) :
    ∃ ended : StreamReader, ended.unread = [] ∧
      readLimited limit (some reader) =
        ((reader.unread.take (min limit reader.unread.length),
          decide (limit < reader.unread.length)), some ended) := by
  have hstart : Capture.Of limit [] ⟨[], 0, false⟩ := Capture.of_nil
  obtain ⟨⟨hkept, -, htruncated⟩, hend⟩ := @readLoop_of limit [] _ reader hstart
  refine ⟨_, hend, ?_⟩
  rw [List.nil_append] at hkept htruncated
  unfold readLimited
  simp only
  rw [hkept, htruncated, List.take_eq_take_min]

end Polaris.Terminal
