import Ircserv.LineBuffer
import Ircserv.Proofs.Reading
import Ircserv.Reply

/-!
# The lines a client reads

However the stream is cut into chunks, and whenever the client pops, the lines popped and those
still queued are the lines of the stream, and the buffer is the rest of it (`uses_spec`). A stream
of messages that end in CR LF and have no line feed before it is its messages. A connection that is
drained after each chunk pops the same lines (`framers_agree`).
-/

namespace Ircserv

open Framing ReplyBuilder

namespace LineBuffer

variable {b : LineBuffer} {l t : Str}

theorem cutLines_of_not_mem (h : lf ∉ b.buffer) (fuel : Nat) : b.cutLines fuel = b := by
  have hnone : b.buffer.findIdx? (· == lf) = none := by
    rw [List.findIdx?_eq_none_iff]
    intro x hx
    rw [beq_eq_false_iff_ne]
    rintro rfl
    exact h hx
  cases fuel with
  | zero => rfl
  | succ fuel => rw [cutLines, hnone]

theorem cutLines_line (hl : lf ∉ l) (h : b.buffer = l ++ lf :: t) (fuel : Nat) :
    b.cutLines (fuel + 1) =
      cutLines fuel { buffer := t, lines := b.lines ++ [stripLine (l ++ [lf])] } := by
  have htake : b.buffer.take l.length = l := by rw [h, List.take_left]
  have hdrop : b.buffer.drop (l.length + 1) = t := by
    rw [h, List.drop_append]
    simp
  have hstrip : stripLine (l ++ [lf]) = if l.getLast? = some cr then l.dropLast else l := by
    rw [stripLine, List.dropLast_concat]
  have hfind : b.buffer.findIdx? (· == lf) = some l.length := by
    rw [h, Connection.findIdx?_line hl]
  rw [cutLines, hfind]
  simp only [htake, hdrop, hstrip]

/-- The loop queues the lines of the buffer and leaves the rest of it. -/
theorem cutLines_spec : ∀ (fuel : Nat) (b : LineBuffer), b.buffer.length < fuel →
    b.cutLines fuel =
      { buffer := rest lf b.buffer, lines := b.lines ++ (Framing.lines lf b.buffer).map stripLine }
  | 0, b, hf => by omega
  | fuel + 1, b, hf => by
    by_cases h : lf ∈ b.buffer
    · obtain ⟨l, t, hbuf, hl⟩ := List.eq_append_cons_of_mem h
      have hlen : t.length < fuel := by
        rw [hbuf, List.length_append, List.length_cons] at hf
        omega
      rw [cutLines_line hl hbuf, cutLines_spec fuel _ hlen, hbuf, rest_line, lines_line hl,
        List.map_cons, List.append_assoc]
      rfl
    · rw [cutLines_of_not_mem h, rest_of_not_mem h, lines_of_not_mem h]
      simp

theorem append_spec (b : LineBuffer) (data : Str) :
    b.append data =
      { buffer := rest lf (b.buffer ++ data)
        lines := b.lines ++ (Framing.lines lf (b.buffer ++ data)).map stripLine } :=
  cutLines_spec _ _ (Nat.lt_succ_self _)

/-- The lines that a buffer has queued, after those popped, when `s` was appended to it. -/
structure Holds (s : Str) (popped : List Str) (b : LineBuffer) : Prop where
  lines : popped ++ b.lines = (Framing.lines lf s).map stripLine
  buffer : b.buffer = rest lf s

theorem Holds.use {s : Str} {popped : List Str} (h : Holds s popped b) (u : Use) :
    Holds (s ++ u.chunk) (popped ++ (b.use u).1) (b.use u).2 := by
  cases u with
  | append data =>
    refine ⟨?_, ?_⟩
    · rw [LineBuffer.use, append_spec, List.append_nil, ← List.append_assoc, h.lines, h.buffer,
        Use.chunk, lines_append s data, List.map_append]
    · rw [LineBuffer.use, append_spec, h.buffer, Use.chunk, rest_append s data]
  | popLine =>
    rw [Use.chunk, List.append_nil, LineBuffer.use]
    rcases hq : b.lines with _ | ⟨line, queue⟩
    · rw [if_neg (by simp [hasLine, hq]), List.append_nil]
      exact h
    · rw [if_pos (by simp [hasLine, hq])]
      refine ⟨?_, ?_⟩
      · have hlines := h.lines
        rw [hq] at hlines
        simp [popLine, hq, hlines]
      · simpa [popLine, hq] using h.buffer

theorem Holds.uses : ∀ (us : List Use) {s : Str} {popped : List Str} {b : LineBuffer},
    Holds s popped b →
      Holds (s ++ us.flatMap Use.chunk) (popped ++ (b.uses us).1) (b.uses us).2
  | [], s, popped, b, h => by simpa [LineBuffer.uses] using h
  | u :: us, s, popped, b, h => by
    have hrest := Holds.uses us (h.use u)
    rw [List.flatMap_cons, LineBuffer.uses, ← List.append_assoc, ← List.append_assoc]
    exact hrest

/-- What a client that starts with an empty buffer reads of the stream. -/
theorem uses_spec (us : List Use) :
    Holds (us.flatMap Use.chunk) (({} : LineBuffer).uses us).1 (({} : LineBuffer).uses us).2 := by
  have hstart : Holds [] [] ({} : LineBuffer) := ⟨rfl, rfl⟩
  simpa using Holds.uses us hstart

theorem append_crlf (b : Str) : b ++ crlf = (b ++ [cr]) ++ [lf] := by
  rw [List.append_assoc]
  rfl

theorem not_mem_append_cr {b : Str} (h : lf ∉ b) : lf ∉ b ++ [cr] := by
  rw [List.mem_append, not_or]
  exact ⟨h, by decide⟩

theorem stripLine_crlf (b : Str) : stripLine (b ++ crlf) = b := by
  rw [append_crlf, stripLine, List.dropLast_concat]
  simp

/-- A message is one line. -/
theorem lines_crlf {b : Str} (h : lf ∉ b) :
    Framing.lines lf (b ++ crlf) = [b ++ crlf] ∧ rest lf (b ++ crlf) = [] := by
  have hcut := lines_line (not_mem_append_cr h) []
  have hrest : rest lf (b ++ [cr] ++ lf :: []) = rest lf [] := rest_line _ _
  rw [lines_of_not_mem List.not_mem_nil] at hcut
  rw [rest_of_not_mem List.not_mem_nil] at hrest
  rw [append_crlf]
  exact ⟨hcut, hrest⟩

/-- A message at the front of the receive buffer is popped as it is. -/
theorem popLine_crlf {b t : Str} {conn : Connection} (h : lf ∉ b)
    (hbuf : conn.recvBuffer = b ++ crlf ++ t) : conn.hasCompleteLine.1 = true ∧
      conn.hasCompleteLine.2.popLine = (b, { conn with recvBuffer := t, nlPos := none }) := by
  have hcut : conn.recvBuffer = (b ++ [cr]) ++ lf :: t := by
    rw [hbuf, append_crlf, List.append_assoc]
    rfl
  have hline := Connection.hasCompleteLine_line (not_mem_append_cr h) hcut
  have hpop := Connection.popLine_line (c := { conn with nlPos := some (b ++ [cr]).length }) hcut rfl
  rw [← append_crlf, stripLine_crlf] at hpop
  rw [hline]
  exact ⟨rfl, hpop⟩

/-- A client that receives messages reads each of them. -/
theorem uses_messages {ms : List Str} (hms : ∀ m ∈ ms, ∃ b, lf ∉ b ∧ m = b ++ crlf)
    {us : List Use} (hus : us.flatMap Use.chunk = ms.flatten) :
    ((({} : LineBuffer).uses us).1 ++ (({} : LineBuffer).uses us).2.lines).map (· ++ crlf) = ms ∧
      (({} : LineBuffer).uses us).2.buffer = [] := by
  have hlines : ∀ m ∈ ms, ∃ l, lf ∉ l ∧ m = l ++ [lf] := by
    intro m hm
    obtain ⟨b, hb, rfl⟩ := hms m hm
    exact ⟨b ++ [cr], not_mem_append_cr hb, append_crlf b⟩
  obtain ⟨hcut, hrest⟩ := lines_flatten hlines
  have hheld := uses_spec us
  rw [hus] at hheld
  refine ⟨?_, hheld.buffer.trans hrest⟩
  rw [hheld.lines, hcut, List.map_map]
  have hsame : ∀ m ∈ ms, stripLine m ++ crlf = m := by
    intro m hm
    obtain ⟨b, -, rfl⟩ := hms m hm
    exact congrArg (· ++ crlf) (stripLine_crlf b)
  exact (List.map_congr_left hsame).trans (List.map_id ms)

section Framers

theorem flatMap_chunk (us : List Use) : us.flatMap Use.chunk = (chunks us).flatten := by
  induction us with
  | nil => rfl
  | cons u us ih =>
    cases u with
    | append data => rw [List.flatMap_cons, ih, chunks, List.flatten_cons, Use.chunk]
    | popLine => rw [List.flatMap_cons, ih, chunks, Use.chunk, List.nil_append]

/-- What a connection makes of one chunk. -/
theorem feed_spec (c : Connection) (chunk : Str) :
    (c.feed chunk).handed = (Framing.lines lf (c.recvBuffer ++ chunk)).map stripLine ∧
      (c.feed chunk).conn.recvBuffer = rest lf (c.recvBuffer ++ chunk) := by
  have hbuf : (c.readFromSocket (some chunk)).2.recvBuffer = c.recvBuffer ++ chunk := by
    cases chunk <;> simp [Connection.readFromSocket]
  obtain ⟨hlines, -, hstatus⟩ := Connection.popLines_spec (fun _ => false) _
    (c.readFromSocket (some chunk)).2 (Nat.lt_succ_self _)
  rw [if_pos fun _ _ => rfl] at hstatus
  rw [through_of_forall fun _ _ => rfl] at hlines
  rw [← hbuf]
  exact ⟨hlines, hstatus.2⟩

theorem feeds_spec : ∀ (chunks : List Str) (c : Connection), lf ∉ c.recvBuffer →
    (c.feeds chunks).1 = (Framing.lines lf (c.recvBuffer ++ chunks.flatten)).map stripLine ∧
      (c.feeds chunks).2.recvBuffer = rest lf (c.recvBuffer ++ chunks.flatten)
  | [], c, h => by
    rw [List.flatten_nil, List.append_nil, lines_of_not_mem h, rest_of_not_mem h]
    exact ⟨rfl, rfl⟩
  | chunk :: chunks, c, h => by
    obtain ⟨hlines, hrest⟩ := feed_spec c chunk
    obtain ⟨ihlines, ihrest⟩ :=
      feeds_spec chunks (c.feed chunk).conn (by rw [hrest]; exact not_mem_rest _)
    rw [hrest] at ihlines ihrest
    rw [List.flatten_cons, ← List.append_assoc, lines_append (c.recvBuffer ++ chunk),
      rest_append (c.recvBuffer ++ chunk), List.map_append, ← hlines, ← ihlines, ← ihrest]
    exact ⟨rfl, rfl⟩

/-- The two framers agree. However a `LineBuffer` is used, the lines popped from it and those it
still holds are the lines that a connection pops which gets the same chunks and is drained after
each, and the two have the same remainder. So a `LineBuffer` that has been drained has given the
same lines. -/
theorem framers_agree (fd : Fd) (us : List Use) :
    let b := ({} : LineBuffer).uses us
    let c := ({ fd := fd } : Connection).feeds (chunks us)
    b.1 ++ b.2.lines = c.1 ∧ b.2.buffer = c.2.recvBuffer ∧ (b.2.hasLine = false → b.1 = c.1) := by
  intro b c
  obtain ⟨hlines, hbuffer⟩ := uses_spec us
  obtain ⟨hlines', hbuffer'⟩ := feeds_spec (chunks us) { fd := fd } (by simp)
  rw [flatMap_chunk] at hlines hbuffer
  have hagree : b.1 ++ b.2.lines = c.1 := hlines.trans hlines'.symm
  refine ⟨hagree, hbuffer.trans hbuffer'.symm, fun hdrained => ?_⟩
  have hnil : b.2.lines = [] := by simpa [hasLine] using hdrained
  rw [← hagree, hnil, List.append_nil]

end Framers

end LineBuffer

end Ircserv
