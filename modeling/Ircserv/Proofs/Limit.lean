import Ircserv.Proofs.Reads

/-!
# The limit on the length of a line

The length of a line is tested once for each chunk, at the front of the buffer. A line is let
through whatever its length when the chunk that completes it completes another line before it
(`Overrun`); in every other case the limit holds (`run_limit`).
-/

open Std

namespace Ircserv

open Framing

/-- One chunk completes the first line that is too long and, before it, another line; and no line
before it requests a disconnection. -/
def Overrun (quits : Str → Bool) (chunks : List Str) : Prop :=
  ∃ (before : List Str) (chunk : Str) (after : List Str) (short : List Str) (long : Str)
    (more : List Str), chunks = before ++ chunk :: after ∧
    lines lf (rest lf before.flatten ++ chunk) = short ++ long :: more ∧ short ≠ [] ∧
    Connection.maxOk < long.length ∧
    ∀ l ∈ lines lf before.flatten ++ short,
      l.length ≤ Connection.maxOk ∧ quits (stripLine l) = false

theorem Overrun.append {quits : Str → Bool} {chunks : List Str} (h : Overrun quits chunks)
    (more : List Str) : Overrun quits (chunks ++ more) := by
  obtain ⟨before, chunk, after, short, long, ls, rfl, h⟩ := h
  exact ⟨before, chunk, after ++ more, short, long, ls, by simp, h⟩

theorem stripLine_length_le (l : Str) : (stripLine l).length ≤ l.length := by
  unfold stripLine
  dsimp only
  split_ifs
  · simp only [List.length_dropLast]
    omega
  · simp only [List.length_dropLast]
    omega

namespace Reading

variable {quits : Str → Bool} {r : Reading}

/-- The lines handed on so far stay handed on. -/
theorem handed_prefix_readChunk (chunk : Str) : r.handed <+: (r.readChunk quits chunk).handed := by
  unfold readChunk
  split_ifs
  · exact List.prefix_rfl
  · dsimp only
    split_ifs
    · exact List.prefix_rfl
    · exact List.prefix_rfl
    · rw [handed, handed, List.map_append]
      exact List.prefix_append _ _

theorem handed_prefix_readChunks (quits : Str → Bool) (chunks : List Str) : ∀ r : Reading,
    r.handed <+: (r.readChunks quits chunks).handed := by
  induction chunks with
  | nil => exact fun r => List.prefix_rfl
  | cons chunk chunks ih => exact fun r => (handed_prefix_readChunk chunk).trans (ih _)

/-- A long line that a chunk brings, when what is at the front is short, overruns the limit. -/
theorem overrun_of_mem_through {chunks : List Str} {chunk l : Str}
    (hso : ∀ x ∈ lines lf chunks.flatten, x.length ≤ Connection.maxOk ∧ QuitLine quits x = false)
    (hfit : frontLength (rest lf chunks.flatten ++ chunk) ≤ Connection.maxOk)
    (hl : l ∈ through (QuitLine quits) (lines lf (rest lf chunks.flatten ++ chunk)))
    (hlong : Connection.maxOk < l.length) : Overrun quits (chunks ++ [chunk]) := by
  set new := through (QuitLine quits) (lines lf (rest lf chunks.flatten ++ chunk)) with hnew
  -- the first long line that the chunk completes
  obtain ⟨long, hfind⟩ : ∃ long, new.find? (Connection.maxOk < ·.length) = some long := by
    rw [← Option.isSome_iff_exists, List.find?_isSome]
    exact ⟨l, hl, by simpa using hlong⟩
  rw [List.find?_eq_some_iff_append] at hfind
  obtain ⟨hlen, short, more, hsplit, hbefore⟩ := hfind
  have hno : ∀ x ∈ short, QuitLine quits x = false := forall_of_through_eq hsplit
  obtain ⟨tail, htail⟩ : new <+: lines lf (rest lf chunks.flatten ++ chunk) := prefix_through _
  have hlines : lines lf (rest lf chunks.flatten ++ chunk) = short ++ long :: (more ++ tail) := by
    rw [← htail, hsplit]
    simp
  rw [decide_eq_true_eq] at hlen
  rcases short with _ | ⟨first, short⟩
  · rw [frontLength, hlines] at hfit
    exact absurd hlen (Nat.not_lt.2 hfit)
  · refine ⟨chunks, chunk, [], first :: short, long, more ++ tail, rfl, hlines,
      List.cons_ne_nil _ _, hlen, fun x hx => ?_⟩
    rcases List.mem_append.1 hx with hx | hx
    · exact hso x hx
    · exact ⟨by simpa using hbefore x hx, hno x hx⟩

/-- Without an overrun only lines within the limit are handed on. -/
theorem short_of_not_overrun (fd : Fd) (chunks : List Str) (hne : ∀ chunk ∈ chunks, chunk ≠ [])
    (h : ¬ Overrun quits chunks) : ∃ ls, ls <+: lines lf chunks.flatten ∧
      ((Reading.start fd).readChunks quits chunks).handed = ls.map stripLine ∧
      ∀ l ∈ ls, l.length ≤ Connection.maxOk := by
  induction chunks using List.reverseRecOn with
  | nil => exact ⟨[], List.nil_prefix, rfl, by simp⟩
  | append_singleton chunks chunk ih =>
    have hne' : ∀ c ∈ chunks, c ≠ [] := fun c hc => hne c (by simp [hc])
    obtain ⟨ls, hls, hhanded, hshort⟩ := ih hne' fun ho => h (ho.append [chunk])
    have hf : Follows quits _ _ := .readChunks _ fd chunks hne'
    rw [readChunks_concat, List.flatten_concat, lines_append]
    set r := (Reading.start fd).readChunks quits chunks
    have hpre := hls.trans (List.prefix_append _ (lines lf (rest lf chunks.flatten ++ chunk)))
    by_cases hr : r.status = .going
    · have hbuf := hf.buffer hr
      rcases Nat.lt_or_ge Connection.maxOk (frontLength (r.conn.recvBuffer ++ chunk)) with hlong | hfit
      · have hpops := (readChunk_tooLong quits hr (hne chunk (by simp)) hlong).2
        exact ⟨ls, hpre, by rw [handed, hpops, ← hhanded, handed], hshort⟩
      · obtain ⟨hnew, -⟩ := readChunk_lines quits hr (hne chunk (by simp)) hfit
        rw [hbuf] at hnew hfit
        set new := through (QuitLine quits) (lines lf (rest lf chunks.flatten ++ chunk)) with hnewdef
        have hall := hf.eq_lines hr hls hhanded
        refine ⟨ls ++ new, ?_, by rw [hnew, hhanded, List.map_append], fun l hl => ?_⟩
        · rw [hall]
          exact (List.prefix_append_right_inj _).2 (prefix_through _)
        · refine (List.mem_append.1 hl).elim (hshort l) fun hlnew => ?_
          by_contra hlong
          refine h (overrun_of_mem_through (fun x hx => ?_) hfit hlnew (Nat.not_le.1 hlong))
          exact ⟨hshort x (hall ▸ hx), hf.noQuit hr x hx⟩
    · rw [readChunk_of_ne hr]
      exact ⟨ls, hpre, hhanded, hshort⟩

/-- With an overrun the long line is handed on. -/
theorem not_short_of_overrun (fd : Fd) (chunks : List Str) (hne : ∀ chunk ∈ chunks, chunk ≠ [])
    (h : Overrun quits chunks) : ¬ ∃ ls, ls <+: lines lf chunks.flatten ∧
      ((Reading.start fd).readChunks quits chunks).handed = ls.map stripLine ∧
      ∀ l ∈ ls, l.length ≤ Connection.maxOk := by
  obtain ⟨before, chunk, after, short, long, more, rfl, hlines, hshort, hlong, hbefore⟩ := h
  rintro ⟨ls, hls, hhanded, hle⟩
  have hne' : ∀ c ∈ before, c ≠ [] := fun c hc => hne c (by simp [hc])
  obtain ⟨first, short, rfl⟩ := List.exists_cons_of_ne_nil hshort
  have hfront : frontLength (rest lf before.flatten ++ chunk) ≤ Connection.maxOk := by
    rw [frontLength, hlines]
    exact (hbefore first (by simp)).1
  have hgoing : ((Reading.start fd).readChunks quits before).status = .going := by
    refine readChunks_going fd before hne' (fun l hl => hbefore l (List.mem_append_left _ hl)) ?_
    exact Nat.le_trans (length_le_headD (not_mem_rest _) chunk) hfront
  have hf : Follows quits _ _ := .readChunks _ fd before hne'
  set r := (Reading.start fd).readChunks quits before with hr
  have hbuf := hf.buffer hgoing
  rw [← hbuf] at hfront
  obtain ⟨hnew, -⟩ := readChunk_lines quits hgoing (hne chunk (by simp)) hfront
  rw [hbuf, hlines, through_append fun l hl => (hbefore l (List.mem_append_right _ hl)).2, through,
    hf.lines hgoing] at hnew
  -- the long line and all before it were handed on
  have hpre := handed_prefix_readChunks quits after (r.readChunk quits chunk)
  have hall : (r.readChunk quits chunk).readChunks quits after =
      (Reading.start fd).readChunks quits (before ++ chunk :: after) := by
    rw [hr, readChunks, readChunks, readChunks, List.foldl_append]
    rfl
  rw [hall, hhanded] at hpre
  have hcount : (lines lf before.flatten ++ (first :: short) ++ [long]).length ≤ ls.length := by
    have := hpre.length_le
    rw [hnew] at this
    split_ifs at this <;> simp at this ⊢ <;> omega
  have hstream : lines lf before.flatten ++ (first :: short) ++ [long] <+:
      lines lf (before ++ chunk :: after).flatten := by
    rw [List.flatten_append, List.flatten_cons, ← List.append_assoc, lines_append, lines_append,
      hlines]
    exact ⟨more ++ lines lf (rest lf (before.flatten ++ chunk) ++ after.flatten), by simp⟩
  have hmem : long ∈ ls :=
    (List.prefix_of_prefix_length_le hstream hls hcount).subset (by simp)
  exact absurd hlong (Nat.not_lt.2 (hle long hmem))

end Reading

/-- The limit, for a stream: every line handed to the parser is within it, and with a line beyond it
the connection is closed. -/
structure WithinLimit (stream : Str) (handed : List Str) (closed : Prop) : Prop where
  short : ∃ ls, ls <+: lines lf stream ∧ handed = ls.map stripLine ∧
    ∀ l ∈ ls, l.length ≤ Connection.maxOk
  closed : (∃ l ∈ lines lf stream, Connection.maxOk < l.length) → closed

/-- In every state of a run, and for every descriptor, the limit holds of the stream received since
the descriptor was accepted exactly when no chunk overran it. -/
theorem run_limit {listenFd : Fd} {password : Str} {m : Machine}
    (h : Reachable listenFd password m) (fd : Fd) :
    WithinLimit (received fd m.server.trace).flatten (handedTo fd m.server.trace)
      (fd ∉ m.server.connections) ↔ ¬ Overrun isQuit (received fd m.server.trace) := by
  have hreads := h.reads fd
  have hne : ∀ chunk ∈ received fd m.server.trace, chunk ≠ [] := fun chunk =>
    ne_nil_of_mem_received
  have hf : Reading.Follows isQuit (readingOf fd m.server.trace) _ :=
    .readChunks _ fd (received fd m.server.trace) hne
  rw [hreads.handed]
  refine ⟨fun hlimit ho => Reading.not_short_of_overrun fd _ hne ho hlimit.short, fun ho => ?_⟩
  obtain ⟨ls, hls, hhanded, hshort⟩ := Reading.short_of_not_overrun fd _ hne ho
  refine ⟨⟨ls, hls, hhanded, hshort⟩, ?_⟩
  rintro ⟨long, hmem, hlong⟩ hfd
  -- a client that is still there was handed every line
  obtain ⟨p, c, hat⟩ := h.exists_at fd hfd
  rw [← hf.eq_lines (hreads.going p c hat) hls hhanded] at hmem
  exact absurd hlong (Nat.not_lt.2 (hshort long hmem))

/-- The cases of a line that is short enough, and of one of 601 bytes that is refused. -/
theorem run_limit_short :
    let m := (Machine.start 3 (lit "pw")).run [.ready [POLLIN], .accepts 5, {}, {}, {},
      .ready [0, POLLIN], {}, .receives "PING x\r\n", {}, {}]
    let long : Str := List.replicate 600 65 ++ [lf]
    let m' := (Machine.start 3 (lit "pw")).run [.ready [POLLIN], .accepts 5, {}, {}, {},
      .ready [0, POLLIN], {}, { calls := { recv := some long } }, {}, {}]
    (received 5 m.server.trace = [lit "PING x\r\n"] ∧
      (WithinLimit (received 5 m.server.trace).flatten (handedTo 5 m.server.trace)
        ((5 : Fd) ∉ m.server.connections) ↔ ¬ Overrun isQuit (received 5 m.server.trace))) ∧
    received 5 m'.server.trace = [long] ∧ handedTo 5 m'.server.trace = [] ∧
      (5 : Fd) ∉ m'.server.connections ∧ ¬ Overrun isQuit (received 5 m'.server.trace) := by
  intro m long m'
  have hm : Reachable 3 (lit "pw") m := .run _ .start (by decide +kernel)
  have hm' : Reachable 3 (lit "pw") m' := .run _ .start (by decide +kernel)
  have hhanded : handedTo 5 m'.server.trace = [] := by decide +kernel
  have hclosed : (5 : Fd) ∉ m'.server.connections := by decide +kernel
  refine ⟨⟨by decide +kernel, run_limit hm 5⟩, by decide +kernel, hhanded, hclosed, ?_⟩
  exact (run_limit hm' 5).1 ⟨⟨[], List.nil_prefix, hhanded, nofun⟩, fun _ => hclosed⟩

/-- A short line and a line of 601 bytes in one chunk. -/
def overrunInput : Str := lit "PING x\n" ++ List.replicate 600 65 ++ [lf]

/-- The second line is handed to the parser and the connection stays. -/
theorem limit_overrun : ¬ ∀ m, Reachable 3 (lit "pw") m → ∀ fd,
    (∀ chunk ∈ received fd m.server.trace, 1 ≤ chunk.length ∧ chunk.length ≤ 4097) →
      WithinLimit (received fd m.server.trace).flatten (handedTo fd m.server.trace)
        (fd ∉ m.server.connections) := by
  intro hall
  set m := (Machine.start 3 (lit "pw")).run [.ready [POLLIN], .accepts 5, {}, {}, {},
    .ready [0, POLLIN], {}, { calls := { recv := some overrunInput } }, {}, {}] with hm
  have hreach : Reachable 3 (lit "pw") m := .run _ .start (by decide +kernel)
  have hrecv : received 5 m.server.trace = [overrunInput] := by decide +kernel
  have hhanded : handedTo 5 m.server.trace = [lit "PING x", List.replicate 600 65] := by
    decide +kernel
  obtain ⟨⟨ls, -, he, hshort⟩, -⟩ := hall m hreach 5 (by rw [hrecv]; decide +kernel)
  rw [hhanded] at he
  obtain ⟨l, hl, hstrip⟩ : ∃ l ∈ ls, stripLine l = List.replicate 600 65 := by
    rw [← List.mem_map, ← he]
    exact List.mem_cons_of_mem _ (List.mem_singleton_self _)
  have hle := stripLine_length_le l
  rw [hstrip, List.length_replicate] at hle
  exact absurd (hshort l hl) (by rw [Connection.maxOk]; omega)

end Ircserv
