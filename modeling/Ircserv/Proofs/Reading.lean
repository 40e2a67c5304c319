import Mathlib.Data.List.Induction
import Ircserv.Lib.Framing
import Ircserv.Reading

/-!
# What reading hands to the parser

As long as reading goes on, the lines handed to the parser are the lines of the stream, and the
receive buffer is the rest of it.
-/

namespace Ircserv

open Framing

/-- A line as `popLine` gives it: without its line feed, and without the carriage return directly
before it. -/
def stripLine (line : Str) : Str :=
  let body := line.dropLast
  if body.getLast? = some cr then body.dropLast else body

namespace Connection

variable {c : Connection} {b t : Str}

theorem findIdx?_line (hb : lf ∉ b) (t : Str) :
    (b ++ lf :: t).findIdx? (· == lf) = some b.length := by
  have hnone : b.findIdx? (· == lf) = none := by
    rw [List.findIdx?_eq_none_iff]
    intro x hx
    simp only [beq_eq_false_iff_ne]
    rintro rfl
    exact hb hx
  rw [List.findIdx?_append, hnone]
  simp [List.findIdx?_cons]

theorem hasCompleteLine_of_not_mem (h : lf ∉ c.recvBuffer) :
    c.hasCompleteLine = (false, { c with nlPos := none }) := by
  have hnone : c.recvBuffer.findIdx? (· == lf) = none := by
    rw [List.findIdx?_eq_none_iff]
    intro x hx
    simp only [beq_eq_false_iff_ne]
    rintro rfl
    exact h hx
  simp [hasCompleteLine, hnone]

theorem hasCompleteLine_line (hb : lf ∉ b) (h : c.recvBuffer = b ++ lf :: t) :
    c.hasCompleteLine = (true, { c with nlPos := some b.length }) := by
  simp only [hasCompleteLine, h, findIdx?_line hb]
  rfl

theorem popLine_line (h : c.recvBuffer = b ++ lf :: t) (hnl : c.nlPos = some b.length) :
    c.popLine = (stripLine (b ++ [lf]), { c with recvBuffer := t, nlPos := none }) := by
  have hdrop : c.recvBuffer.drop (b.length + 1) = t := by
    rw [h, List.drop_append]
    simp
  have hcr : (0 < b.length ∧ c.recvBuffer[b.length - 1]? = some cr) ↔ b.getLast? = some cr := by
    rcases List.eq_nil_or_concat b with rfl | ⟨b, a, rfl⟩
    · simp
    · simp [h]
  simp only [popLine, hnl, hcr, hdrop, stripLine, List.dropLast_concat]
  split_ifs
  · rw [h, List.take_append_of_le_length (Nat.sub_le _ _), List.dropLast_eq_take]
  · rw [h, List.take_left]

end Connection

/-- `popLine` was called with the position of the first line feed. -/
def Connection.Ready (c : Connection) : Prop :=
  c.nlPos = c.recvBuffer.findIdx? (· == lf) ∧ c.nlPos.isSome = true

namespace Connection

variable {c : Connection} {b t : Str} {quits : Str → Bool}

theorem ready_line (hb : lf ∉ b) (h : c.recvBuffer = b ++ lf :: t) :
    ({ c with nlPos := some b.length } : Connection).Ready := by
  refine ⟨?_, rfl⟩
  rw [h, findIdx?_line hb]

/-- One round of the loop. -/
theorem popLines_line (hb : lf ∉ b) (h : c.recvBuffer = b ++ lf :: t) (fuel : Nat) :
    c.popLines quits (fuel + 1) =
      let c' := { c with recvBuffer := t, nlPos := none }
      let r := c'.popLines quits fuel
      if quits (stripLine (b ++ [lf])) then
        { conn := c', status := .left, pops := [{ c with nlPos := some b.length }] }
      else { r with pops := { c with nlPos := some b.length } :: r.pops } := by
  have hpop := popLine_line (c := { c with nlPos := some b.length }) h rfl
  rw [popLines, hasCompleteLine_line hb h]
  simp only [Bool.not_true, Bool.false_eq_true, if_false, hpop]

/-- The loop over the complete lines pops the lines of the buffer, through the first one that
requests a disconnection, and leaves the rest. -/
theorem popLines_spec (quits : Str → Bool) : ∀ (fuel : Nat) (c : Connection),
    c.recvBuffer.length < fuel →
      (c.popLines quits fuel).handed =
        (through (fun l => quits (stripLine l)) (lines lf c.recvBuffer)).map stripLine ∧
      (∀ d ∈ (c.popLines quits fuel).pops, d.Ready) ∧
      if ∀ l ∈ lines lf c.recvBuffer, quits (stripLine l) = false then
        (c.popLines quits fuel).status = .going ∧
          (c.popLines quits fuel).conn.recvBuffer = rest lf c.recvBuffer
      else (c.popLines quits fuel).status = .left
  | 0, c, hf => by omega
  | fuel + 1, c, hf => by
    by_cases h : lf ∈ c.recvBuffer
    · obtain ⟨b, t, hbuf, hb⟩ := List.eq_append_cons_of_mem h
      have hpop := popLine_line (c := { c with nlPos := some b.length }) hbuf rfl
      have hready := ready_line hb hbuf
      have hlines : lines lf c.recvBuffer = (b ++ [lf]) :: lines lf t := by
        rw [hbuf, lines_line hb]
      have hrest : rest lf c.recvBuffer = rest lf t := by rw [hbuf, rest_line]
      rw [popLines_line hb hbuf, hlines, hrest]
      dsimp only
      cases hq : quits (stripLine (b ++ [lf])) with
      | true =>
        rw [if_pos rfl]
        refine ⟨by simp [Reading.handed, through, hq, hpop], by simpa using hready, ?_⟩
        rw [if_neg fun hall => ?_]
        rw [hall _ List.mem_cons_self] at hq
        cases hq
      | false =>
        rw [if_neg Bool.false_ne_true]
        have hlen : t.length < fuel := by
          rw [hbuf, List.length_append, List.length_cons] at hf
          omega
        obtain ⟨hl, hpops, hstatus⟩ :=
          popLines_spec quits fuel { c with recvBuffer := t, nlPos := none } hlen
        refine ⟨?_, ?_, ?_⟩
        · rw [through, hq, if_neg Bool.false_ne_true, List.map_cons, ← hl]
          simp only [Reading.handed, List.map_cons, hpop]
        · simpa [hready] using hpops
        · simpa only [List.forall_mem_cons, hq, true_and] using hstatus
    · rw [popLines, hasCompleteLine_of_not_mem h, lines_of_not_mem h, rest_of_not_mem h]
      simp [Reading.handed, through]

theorem recvBuffer_readFromSocket {chunk : Str} (h : chunk ≠ []) :
    (c.readFromSocket (some chunk)).2.recvBuffer = c.recvBuffer ++ chunk := by
  obtain ⟨a, chunk, rfl⟩ := List.exists_cons_of_ne_nil h
  rfl

/-- The test on the length depends on the receive buffer only. -/
theorem isLineTooLong_receive {c' : Connection} (h : c.recvBuffer = c'.recvBuffer)
    (data : Option Str) :
    (c.readFromSocket data).2.isLineTooLong = (c'.readFromSocket data).2.isLineTooLong := by
  unfold readFromSocket isLineTooLong
  split <;> simp only [h]

/-- The test looks at the first line of the buffer, or at all of it where there is none. -/
theorem isLineTooLong_iff (c : Connection) : c.isLineTooLong = true ↔
    maxOk < ((lines lf c.recvBuffer).headD c.recvBuffer).length := by
  rcases hl : lines lf c.recvBuffer with _ | ⟨l, ls⟩
  · have hlf : lf ∉ c.recvBuffer.take (min c.recvBuffer.length maxOk) := fun h =>
      lines_eq_nil_iff.1 hl (List.mem_of_mem_take h)
    simp only [isLineTooLong, List.headD_nil]
    split_ifs with hlen
    · simp [hlen]
    · simp [hlf, Nat.lt_of_not_le hlen]
  · obtain ⟨b, t, hb, rfl, hbuf, -⟩ := eq_append_of_lines_eq_cons hl
    have hmem : ∀ n, lf ∈ (b ++ lf :: t).take n ↔ b.length < n := by
      intro n
      rw [List.take_append, List.mem_append]
      have hnot : lf ∉ b.take n := fun h => hb (List.mem_of_mem_take h)
      rcases Nat.lt_or_ge b.length n with hn | hn
      · obtain ⟨k, hk⟩ : ∃ k, n - b.length = k + 1 := ⟨n - b.length - 1, by omega⟩
        simp [hk, hn]
      · simp [Nat.sub_eq_zero_of_le hn, hnot, Nat.not_lt.2 hn]
    simp only [isLineTooLong, hbuf, List.headD_cons, List.length_append, List.length_cons,
      List.length_nil]
    split_ifs with hlen
    · simp only [false_iff, Nat.not_lt]
      omega
    · simp only [Bool.not_eq_true', List.contains_eq_mem, decide_eq_false_iff_not, hmem]
      omega

end Connection

namespace Reading

variable {quits : Str → Bool} {r : Reading} {chunk : Str}

/-- The lines that request a disconnection, with their terminators. -/
abbrev QuitLine (quits : Str → Bool) (l : Str) : Bool := quits (stripLine l)

/-- The length of what stands at the front of a buffer. -/
def frontLength (b : Str) : Nat := ((lines lf b).headD b).length

theorem readChunk_of_tooLong (quits : Str → Bool) (hr : r.status = .going) (hne : chunk ≠ [])
    (hlong : (r.conn.readFromSocket (some chunk)).2.isLineTooLong = true) :
    r.readChunk quits chunk =
      { r with conn := (r.conn.readFromSocket (some chunk)).2, status := .tooLong } := by
  obtain ⟨a, chunk, rfl⟩ := List.exists_cons_of_ne_nil hne
  simp only [readChunk, hr, hlong]
  simp [Connection.readFromSocket]

theorem readChunk_of_fits (quits : Str → Bool) (hr : r.status = .going) (hne : chunk ≠ [])
    (hfit : (r.conn.readFromSocket (some chunk)).2.isLineTooLong = false) :
    let c := (r.conn.readFromSocket (some chunk)).2
    r.readChunk quits chunk = { c.popLines quits (c.recvBuffer.length + 1) with
      pops := r.pops ++ (c.popLines quits (c.recvBuffer.length + 1)).pops } := by
  obtain ⟨a, chunk, rfl⟩ := List.exists_cons_of_ne_nil hne
  simp only [readChunk, hr, hfit]
  simp [Connection.readFromSocket]

/-- A chunk is refused when what it brings to the front of the buffer is too long. -/
theorem readChunk_tooLong (quits : Str → Bool) (hr : r.status = .going) (hne : chunk ≠ [])
    (hlong : Connection.maxOk < frontLength (r.conn.recvBuffer ++ chunk)) :
    (r.readChunk quits chunk).status = .tooLong ∧ (r.readChunk quits chunk).pops = r.pops := by
  rw [readChunk_of_tooLong quits hr hne]
  · exact ⟨rfl, rfl⟩
  · rwa [Connection.isLineTooLong_iff, Connection.recvBuffer_readFromSocket hne]

/-- Otherwise its lines are handed on, through the first one that requests a disconnection. -/
theorem readChunk_lines (quits : Str → Bool) (hr : r.status = .going) (hne : chunk ≠ [])
    (hfront : frontLength (r.conn.recvBuffer ++ chunk) ≤ Connection.maxOk) :
    (r.readChunk quits chunk).handed = r.handed ++
        (through (QuitLine quits) (lines lf (r.conn.recvBuffer ++ chunk))).map stripLine ∧
      (∀ c ∈ (r.readChunk quits chunk).pops, c ∈ r.pops ∨ c.Ready) ∧
      if ∀ l ∈ lines lf (r.conn.recvBuffer ++ chunk), QuitLine quits l = false then
        (r.readChunk quits chunk).status = .going ∧
          (r.readChunk quits chunk).conn.recvBuffer = rest lf (r.conn.recvBuffer ++ chunk)
      else (r.readChunk quits chunk).status = .left := by
  have hbuf := Connection.recvBuffer_readFromSocket (c := r.conn) hne
  have hfit : (r.conn.readFromSocket (some chunk)).2.isLineTooLong = false := by
    rw [Bool.eq_false_iff, Ne, Connection.isLineTooLong_iff, hbuf]
    exact Nat.not_lt.2 hfront
  rw [readChunk_of_fits quits hr hne hfit, ← hbuf]
  obtain ⟨hlines, hpops, hstatus⟩ := Connection.popLines_spec quits _
    (r.conn.readFromSocket (some chunk)).2 (Nat.lt_succ_self _)
  refine ⟨?_, fun d hd => ?_, hstatus⟩
  · rw [← hlines]
    simp [handed]
  · exact (List.mem_append.1 hd).imp_right (hpops d)

theorem readChunk_of_ne (hr : r.status ≠ .going) (chunk : Str) : r.readChunk quits chunk = r := by
  rw [readChunk, if_pos hr]

theorem readChunks_concat (chunks : List Str) (chunk : Str) :
    r.readChunks quits (chunks ++ [chunk]) = (r.readChunks quits chunks).readChunk quits chunk := by
  rw [readChunks, List.foldl_append]
  rfl

/-- What the chunks so far make of a reading that began with nothing. The lines handed on are the
first lines of the stream; while reading goes on they are all of them, and the buffer is the
rest. -/
structure Follows (quits : Str → Bool) (r : Reading) (stream : Str) : Prop where
  handed : ∃ ls, ls <+: Framing.lines lf stream ∧ r.handed = ls.map stripLine
  lines : r.status = .going → r.handed = (Framing.lines lf stream).map stripLine
  buffer : r.status = .going → r.conn.recvBuffer = rest lf stream
  noQuit : r.status = .going → ∀ l ∈ Framing.lines lf stream, QuitLine quits l = false
  ready : ∀ c ∈ r.pops, c.Ready

namespace Follows

variable {stream : Str}

theorem start (fd : Fd) : Follows quits (Reading.start fd) [] :=
  ⟨⟨[], List.nil_prefix, rfl⟩, fun _ => rfl, fun _ => rfl, nofun, nofun⟩

theorem readChunk (h : Follows quits r stream) (hne : chunk ≠ []) :
    Follows quits (r.readChunk quits chunk) (stream ++ chunk) := by
  have hpre : Framing.lines lf stream <+: Framing.lines lf (stream ++ chunk) := by
    rw [lines_append]
    exact List.prefix_append _ _
  by_cases hr : r.status = .going
  · have hbuf := h.buffer hr
    have hhanded := h.lines hr
    rcases Nat.lt_or_ge Connection.maxOk (frontLength (r.conn.recvBuffer ++ chunk)) with hlong | hfit
    · obtain ⟨hst, hpops⟩ := readChunk_tooLong quits hr hne hlong
      refine ⟨⟨_, hpre, by rw [← hhanded, Reading.handed, hpops, Reading.handed]⟩, ?_, ?_, ?_, ?_⟩
      · simp [hst]
      · simp [hst]
      · simp [hst]
      · rw [hpops]
        exact h.ready
    · obtain ⟨hlines, hpops, hst⟩ := readChunk_lines quits hr hne hfit
      have hready : ∀ c ∈ (r.readChunk quits chunk).pops, c.Ready := fun c hc =>
        (hpops c hc).elim (h.ready c) id
      rw [hbuf] at hlines hst
      rw [hhanded, ← List.map_append] at hlines
      have hls : Framing.lines lf stream ++ through (QuitLine quits)
          (Framing.lines lf (rest lf stream ++ chunk)) <+: Framing.lines lf (stream ++ chunk) := by
        rw [lines_append stream]
        exact (List.prefix_append_right_inj _).2 (prefix_through _)
      split_ifs at hst with hno
      · rw [through_of_forall hno, ← lines_append] at hlines
        refine ⟨⟨_, List.prefix_rfl, hlines⟩, fun _ => hlines, fun _ => ?_, fun _ l hl => ?_, hready⟩
        · rw [hst.2, ← rest_append]
        · rw [lines_append, List.mem_append] at hl
          exact hl.elim (h.noQuit hr l) (hno l)
      · refine ⟨⟨_, hls, hlines⟩, ?_, ?_, ?_, hready⟩
        · simp [hst]
        · simp [hst]
        · simp [hst]
  · rw [readChunk_of_ne hr]
    obtain ⟨ls, hls, he⟩ := h.handed
    exact ⟨⟨ls, hls.trans hpre, he⟩, fun h => absurd h hr, fun h => absurd h hr,
      fun h => absurd h hr, h.ready⟩

theorem readChunks (quits : Str → Bool) (fd : Fd) (chunks : List Str)
    (hne : ∀ chunk ∈ chunks, chunk ≠ []) :
    Follows quits ((Reading.start fd).readChunks quits chunks) chunks.flatten := by
  induction chunks using List.reverseRecOn with
  | nil => exact .start fd
  | append_singleton chunks chunk ih =>
    rw [readChunks_concat, List.flatten_concat]
    exact (ih fun c hc => hne c (by simp [hc])).readChunk (hne chunk (by simp))

/-- While reading goes on, the lines handed on are all the lines. -/
theorem eq_lines (h : Follows quits r stream) (hr : r.status = .going) {ls : List Str}
    (hls : ls <+: Framing.lines lf stream) (hhanded : r.handed = ls.map stripLine) :
    ls = Framing.lines lf stream := by
  refine hls.eq_of_length ?_
  have hlen := congrArg List.length ((h.lines hr).symm.trans hhanded)
  rw [List.length_map, List.length_map] at hlen
  exact hlen.symm

end Follows

/-- Reading goes on through a stream whose lines are short and request no disconnection. -/
theorem readChunks_going (fd : Fd) (chunks : List Str) (hne : ∀ chunk ∈ chunks, chunk ≠ [])
    (hlines : ∀ l ∈ Framing.lines lf chunks.flatten,
      l.length ≤ Connection.maxOk ∧ QuitLine quits l = false)
    (htail : (rest lf chunks.flatten).length ≤ Connection.maxOk) :
    ((Reading.start fd).readChunks quits chunks).status = .going := by
  induction chunks using List.reverseRecOn with
  | nil => rfl
  | append_singleton chunks chunk ih =>
    have hne' : ∀ c ∈ chunks, c ≠ [] := fun c hc => hne c (by simp [hc])
    have hf := Follows.readChunks quits fd chunks hne'
    rw [List.flatten_concat, lines_append] at hlines
    rw [List.flatten_concat, rest_append] at htail
    set buffer := rest lf chunks.flatten ++ chunk with hbuffer
    have hfront : frontLength buffer ≤ Connection.maxOk := by
      rcases hl : Framing.lines lf buffer with _ | ⟨l, ls⟩
      · rw [rest_of_not_mem (lines_eq_nil_iff.1 hl)] at htail
        simpa [frontLength, hl] using htail
      · have := (hlines l (by simp [hl])).1
        simpa [frontLength, hl] using this
    have hgoing := ih hne' (fun l hl => hlines l (List.mem_append_left _ hl))
      (Nat.le_trans (length_le_headD (not_mem_rest _) chunk) hfront)
    rw [readChunks_concat]
    have hbuf := hf.buffer hgoing
    rw [hbuffer, ← hbuf] at hfront
    have hst := (readChunk_lines quits hgoing (hne chunk (by simp)) hfront).2.2
    rw [hbuf, if_pos fun l hl => (hlines l (List.mem_append_right _ hl)).2] at hst
    exact hst.1

/-- Lines of at most 512 bytes are handed on whole and in order however the stream is cut into
chunks, and what is not a line yet stays in the buffer. -/
theorem readChunks_wellSized (fd : Fd) (chunks : List Str) (hne : ∀ chunk ∈ chunks, chunk ≠ [])
    (hlines : ∀ l ∈ Framing.lines lf chunks.flatten, l.length ≤ 512)
    (htail : (rest lf chunks.flatten).length ≤ 512) :
    let r := (Reading.start fd).readChunks (fun _ => false) chunks
    r.status = .going ∧ r.handed = (Framing.lines lf chunks.flatten).map stripLine ∧
      r.conn.recvBuffer = rest lf chunks.flatten ∧
      ∀ c ∈ r.pops, c.nlPos.isSome = true ∧ c.nlPos = c.recvBuffer.findIdx? (· == lf) := by
  intro r
  have hgoing : r.status = .going :=
    readChunks_going fd chunks hne (fun l hl => ⟨hlines l hl, rfl⟩) htail
  have hf : Follows (fun _ => false) r chunks.flatten := .readChunks _ fd chunks hne
  exact ⟨hgoing, hf.lines hgoing, hf.buffer hgoing, fun c hc => (hf.ready c hc).symm⟩

/-- The case of two lines in three chunks, the second cut between its two terminators. -/
theorem readChunks_wellSized_cut :
    let chunks := [lit "PING a\nPIN", lit "G b\r", lit "\nQ"]
    let r := (Reading.start 5).readChunks (fun _ => false) chunks
    r.status = .going ∧ r.handed = [lit "PING a", lit "PING b"] ∧ r.conn.recvBuffer = lit "Q" := by
  intro chunks r
  obtain ⟨hst, hlines, hbuf, -⟩ := readChunks_wellSized 5 chunks (by decide) (by decide) (by decide)
  exact ⟨hst, hlines.trans (by decide), hbuf.trans (by decide)⟩

end Reading

end Ircserv
