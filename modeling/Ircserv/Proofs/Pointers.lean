import Ircserv.Pointers
import Ircserv.Proofs.Flushes
import Ircserv.Proofs.Numbers

/-!
# mini_serv and its memory

The program with pointers does step by step what the one with strings does (`Models`): no access is
a `fault`, no block is freed twice or forgotten, and every buffer holds its string.
-/

namespace Ircserv

namespace MiniServ

namespace C

open CMemory CArray Function Halting

abbrev Follows {α β : Type} (R : α × Globals → β → Prop) (x : Except Halt (α × Globals))
    (y : Except State β) : Prop := Refines Halt.lost Halt.agrees R x y

section Primitives

variable {α β : Type} {x : Prog α} {f : α → Prog β} {c c' : Globals} {a : α} {s : Str}
  {p : Ptr} {n b : Nat} {bytes : List (Option UInt8)}

theorem bind_run (h : x c = .ok (a, c')) : (x >>= f) c = f a c' := by
  change (x c >>= fun y => f y.1 y.2) = f a c'
  rw [h]
  rfl

theorem Follows.bind {γ δ : Type} {R : α × Globals → γ → Prop} {S : β × Globals → δ → Prop}
    {y : Except State γ} {g : γ → Except State δ} (h : Follows R (x c) y)
    (hf : ∀ a c' b, x c = .ok (a, c') → y = .ok b → R (a, c') b → Follows S (f a c') (g b)) :
    Follows S ((x >>= f) c) (y >>= g) :=
  Refines.bind h fun z b hx hy hR => hf z.1 z.2 b hx hy hR

/-- The first program takes a step on its own. -/
theorem Follows.step {γ : Type} {R : β × Globals → γ → Prop} {y : Except State γ}
    (hx : x c = .ok (a, c')) (h : Follows R (f a c') y) : Follows R ((x >>= f) c) y := by
  rw [bind_run hx]
  exact h

/-- The first program takes all its steps. -/
theorem Follows.of_run {γ : Type} {R : α × Globals → γ → Prop} {y : Except State γ}
    (hx : x c = .ok (a, c')) (h : Follows R (.ok (a, c')) y) : Follows R (x c) y := by
  rw [hx]
  exact h

theorem access_run {f : Mem UInt8 → Option α} (h : f c.mem = some a) : access f c = .ok (a, c) := by
  rw [access, h]

theorem change_run {f : Mem UInt8 → Option (Mem UInt8)} {mem : Mem UInt8} (h : f c.mem = some mem) :
    change f c = .ok ((), { c with mem := mem }) := by
  rw [change, h]

theorem string_run (h : PointsTo c.mem.block p s) : string p c = .ok (s, c) :=
    access_run h.string_eq

theorem strlen_run (h : PointsTo c.mem.block p s) : strlen p c = .ok (s.length, c) := by
  change (string p c >>= fun y => _) = _
  rw [string_run h]
  rfl

theorem int_run (h : n ≤ INT_MAX) : int n c = .ok (n, c) := by
  rw [int, if_pos h]
  rfl

theorem int_follows (str : Slot → Option Str) (n : Nat) :
    Follows (fun x y => x = (n, c) ∧ y = n ∧ n ≤ INT_MAX) (int n c) ((c.state str).int n) := by
  rw [int, State.int]
  split_ifs with h
  · exact ⟨rfl, rfl, h⟩
  · exact .inl trivial

theorem fatal_follows {R : α × Globals → β → Prop} {s : State} (h : c.trace = s.trace) :
    Follows R (fatal c) (s.fatal : Except State β) :=
  .inr (congrArg (Event.fatal :: ·) h)

end Primitives

section Join

variable {heap : Nat → Bool} {c : Globals} {ptr : Slot → Option Ptr} {str : Slot → Option Str}
  {frame : Blocks UInt8} {i : Slot} {add : Ptr} {s t : Str} {n : Nat} {bytes : List (Option UInt8)}

/-- A block of the frame is not that of a string of it that was there before. -/
theorem block_ne_of_pointsTo {p : Ptr} (hp : PointsTo frame p t) {b : Nat} (hb : frame b = none) :
    p.block ≠ b := by
  obtain ⟨blk, hblk, -⟩ := hp
  intro heq
  rw [heq, hb] at hblk
  simp at hblk

theorem free_run (hO : Owns c.mem.block ptr str frame) (i : Slot) : ∃ mem,
    free (ptr i) c = .ok ((), { c with mem := mem }) ∧
      Owns mem.block (update ptr i none) (update str i none) frame := by
  rcases hp : ptr i with _ | p
  · have hstr : str i = none := (hO.buffer i).of_none hp
    refine ⟨c.mem, rfl, ?_⟩
    rwa [update_eq_self_iff.2 hp.symm, update_eq_self_iff.2 hstr.symm]
  · obtain ⟨b, bytes, s, rfl, -, hblk, -⟩ := (hO.buffer i).of_some hp
    obtain ⟨mem, hfree, hmem⟩ := Mem.release_eq hblk
    have hO' := hO.release hp
    rw [← hmem] at hO'
    exact ⟨mem, change_run (f := (·.release .heap ⟨b, 0⟩)) hfree, hO'⟩

theorem free_frame_run (hO : Owns c.mem.block ptr str (update frame n (some ⟨bytes, .heap⟩)))
    (hframe : frame n = none) : ∃ mem, free (some ⟨n, 0⟩) c = .ok ((), { c with mem := mem }) ∧
      Owns mem.block ptr str frame := by
  obtain ⟨mem, hfree, hmem⟩ := Mem.release_eq hO.block_eq
  have hO' := hO.discard hframe
  rw [← hmem] at hO'
  exact ⟨mem, change_run (f := (·.release .heap ⟨n, 0⟩)) hfree, hO'⟩

/-- The end of `str_join`. -/
theorem addLast_run (hO : Owns c.mem.block ptr str (update frame n (some ⟨bytes, .heap⟩)))
    (hframe : frame n = none) (hi : ptr i = none) (hs : Spells bytes s)
    (hadd : PointsTo frame add t) (hroom : s.length + t.length < bytes.length) :
    ∃ mem, (do
      strcat ⟨n, 0⟩ add
      return some ⟨n, 0⟩ : Prog (Option Ptr)) c = .ok (some ⟨n, 0⟩, { c with mem := mem }) ∧
      Owns mem.block (update ptr i (some ⟨n, 0⟩)) (update str i (some (s ++ t))) frame := by
  have hne := block_ne_of_pointsTo hadd hframe
  have hsrc := hO.pointsTo (hadd.update hne _)
  obtain ⟨mem, bytes', hcat, hO', -, hs'⟩ := hO.strcat hs hsrc hne hroom
  exact ⟨mem, bind_run (change_run hcat), hO'.adopt hi hframe hs'⟩

/-- What `str_join` does when it has memory. -/
theorem fill_run (hO : Owns c.mem.block ptr str (update frame n (some ⟨bytes, .heap⟩)))
    (hframe : frame n = none) (hadd : PointsTo frame add t)
    (hroom : ((str i).getD []).length + t.length < bytes.length) :
    ∃ mem, (do
      store ⟨n, 0⟩ 0
      (ptr i).forM (strcat ⟨n, 0⟩)
      free (ptr i)
      strcat ⟨n, 0⟩ add
      return some ⟨n, 0⟩ : Prog (Option Ptr)) c = .ok (some ⟨n, 0⟩, { c with mem := mem }) ∧
      Owns mem.block (update ptr i (some ⟨n, 0⟩))
        (update str i (some ((str i).getD [] ++ t))) frame := by
  obtain ⟨mem₁, bytes₁, hstore, hO₁, hlen₁, hs₁⟩ := hO.write (t := []) (by simp; omega)
  have hrun₁ : store ⟨n, 0⟩ 0 c = .ok ((), { c with mem := mem₁ }) := change_run hstore
  rw [bind_run hrun₁]
  rcases hp : ptr i with _ | p
  · have hstr : str i = none := (hO.buffer i).of_none hp
    rw [hstr] at hroom ⊢
    exact addLast_run hO₁ hframe hp hs₁ hadd (by simpa [hlen₁] using hroom)
  · obtain ⟨b, bytes₀, s, rfl, hstr, hblk, hs⟩ := (hO₁.buffer i).of_some hp
    rw [hstr] at hroom ⊢
    simp only [Option.getD_some] at hroom ⊢
    have hnb : b ≠ n := hO₁.ne_of_frame hp
    have hsrc : PointsTo mem₁.block ⟨b, 0⟩ s := ⟨_, hblk, hs⟩
    obtain ⟨mem₂, bytes₂, hcat, hO₂, hlen₂, hs₂⟩ := hO₁.strcat hs₁ hsrc hnb
      (by simp [hlen₁, cstr]; omega)
    have hrun₂ : strcat ⟨n, 0⟩ ⟨b, 0⟩ { c with mem := mem₁ } = .ok ((), { c with mem := mem₂ }) :=
      change_run hcat
    have hforM : (some (⟨b, 0⟩ : Ptr)).forM (strcat ⟨n, 0⟩) { c with mem := mem₁ } =
        .ok ((), { c with mem := mem₂ }) := hrun₂
    obtain ⟨mem₃, hrun₃, hO₃⟩ := free_run (c := { c with mem := mem₂ }) hO₂ i
    rw [hp] at hrun₃
    obtain ⟨mem, hrun, hO'⟩ :=
      addLast_run (c := { c with mem := mem₃ }) hO₃ hframe (update_self _ _ _)
      hs₂ hadd (by simp [hlen₂, hlen₁, cstr]; omega)
    rw [update_idem, update_idem] at hO'
    refine ⟨mem, ?_, by simpa [cstr] using hO'⟩
    rw [bind_run hforM, bind_run hrun₃]
    exact hrun

theorem size_eq {n : Nat} (h : n < 2 ^ 64) : size n = n := Nat.mod_eq_of_lt h

theorem obtainBlock_run (n : Nat) (fill : Option UInt8) (hO : Owns c.mem.block ptr str frame)
    (h : heap c.allocs = true) (hn : n < 2 ^ 64) : ∃ mem b,
      obtainBlock heap n fill c = .ok (some ⟨b, 0⟩, { c with mem := mem, allocs := c.allocs + 1 }) ∧
        frame b = none ∧
        Owns mem.block ptr str (update frame b (some ⟨List.replicate n fill, .heap⟩)) := by
  refine ⟨_, _, ?_, hO.frame_none c.mem.block_length, hO.alloc .heap (List.replicate n fill)⟩
  rw [obtainBlock, if_pos h, size_eq hn]
  rfl

theorem obtainBlock_none {fill : Option UInt8} (h : heap c.allocs = false) :
    obtainBlock heap n fill c = .ok (none, { c with allocs := c.allocs + 1 }) := by
  rw [obtainBlock, if_neg (by simp [h])]

/-- What `str_join` gives for the buffer `i`: nothing, or the buffer with more in it. -/
def Joined (c : Globals) (str : Slot → Option Str) (frame : Blocks UInt8) (i : Slot)
    (x : Option Ptr × Globals) (y : Option Str × State) : Prop :=
  ∃ mem n, x.2 = { c with mem := mem, allocs := n } ∧ y.2 = x.2.state str ∧
    (x.1 = none ∧ y.1 = none ∨ ∃ p s, x.1 = some p ∧ y.1 = some s ∧ s.length < 2 ^ 63 ∧
      Owns mem.block (update c.buffer i (some p)) (update str i (some s)) frame)

theorem strJoin_follows {text : Str} (hO : Owns c.mem.block c.buffer str frame) (i : Slot)
    (hadd : PointsTo frame add (cString text)) (hlen : (cString text).length ≤ INT_MAX) :
    Follows (Joined c str frame i) (strJoin heap (c.buffer i) add c)
      ((c.state str).strJoin heap (str i) text) := by
  unfold strJoin State.strJoin
  refine Follows.bind
    (R := fun x _ => x = (((str i).getD []).length, c) ∧ ((str i).getD []).length ≤ INT_MAX) ?_
    fun n c' y _ _ hn => ?_
  · rcases hp : c.buffer i with _ | p
    · rw [(hO.buffer i).of_none hp, State.int, if_pos (by exact Nat.zero_le _)]
      exact ⟨rfl, Nat.zero_le _⟩
    · obtain ⟨b, bytes, s, rfl, hstr, hblk, hs⟩ := (hO.buffer i).of_some hp
      have hs' : PointsTo c.mem.block ⟨b, 0⟩ s := ⟨_, hblk, hs⟩
      rw [hstr]
      dsimp only [Option.getD_some]
      rw [bind_run (strlen_run hs')]
      exact (int_follows str _).mono fun x y _ _ h => ⟨h.1, h.2.2⟩
  obtain ⟨heq, hle⟩ := hn
  cases heq
  rw [bind_run (strlen_run (hO.pointsTo hadd))]
  rcases hheap : heap c.allocs
  · have hmalloc : malloc heap (((str i).getD []).length + (cString text).length + 1) c =
        .ok (none, { c with allocs := c.allocs + 1 }) := obtainBlock_none hheap
    rw [bind_run hmalloc]
    refine ⟨c.mem, c.allocs + 1, rfl, rfl, .inl ⟨rfl, ?_⟩⟩
    exact if_neg (by simp [Globals.state, hheap])
  · obtain ⟨mem, b, hmalloc, hframe, hO₁⟩ :=
      obtainBlock_run (((str i).getD []).length + (cString text).length + 1) none hO hheap
        (by rw [INT_MAX] at hle hlen; omega)
    rw [bind_run (x := malloc heap _) hmalloc]
    obtain ⟨mem', hfill, hO'⟩ :=
      fill_run (c := { c with mem := mem, allocs := c.allocs + 1 }) (i := i)
      hO₁ hframe hadd (by simp)
    refine Follows.of_run hfill
      ⟨mem', c.allocs + 1, rfl, rfl, .inr ⟨_, _, rfl, if_pos hheap, ?_, hO'⟩⟩
    rw [List.length_append]
    rw [INT_MAX] at hle hlen
    omega

end Join

section Setters

variable (c : Globals) (str : Slot → Option Str) (fd : Nat) (p : Option Ptr) (b : Option Str)

theorem Globals.buffer_rbuf :
    ({ c with rbuf := update c.rbuf fd p } : Globals).buffer = update c.buffer (.rbuf fd) p := by
  funext i
  cases i <;> simp [buffer, update_apply]

theorem Globals.buffer_wbuf :
    ({ c with wbuf := update c.wbuf fd p } : Globals).buffer = update c.buffer (.wbuf fd) p := by
  funext i
  cases i <;> simp [buffer, update_apply]

theorem Globals.state_rbuf : c.state (update str (.rbuf fd) b) = (c.state str).setRbuf fd b := by
  simp only [state, State.setRbuf, State.mk.injEq, true_and, and_true]
  refine ⟨funext fun g => ?_, funext fun g => ?_⟩ <;> simp [update_apply]

theorem Globals.state_wbuf : c.state (update str (.wbuf fd) b) = (c.state str).setWbuf fd b := by
  simp only [state, State.setWbuf, State.mk.injEq, true_and, and_true]
  refine ⟨funext fun g => ?_, funext fun g => ?_⟩ <;> simp [update_apply]

end Setters

section Send

variable {heap : Nat → Bool} {c : Globals} {s : State} {frame : Blocks UInt8}
  {msg : Ptr} {text : Str} {except fd : Nat}

theorem sendTo_follows (h : Models frame c s) (hmsg : PointsTo frame msg (cString text))
    (hlen : (cString text).length ≤ INT_MAX) (except fd : Nat) :
    Follows (fun x s => Models frame x.2 s) (sendTo heap except msg fd c)
      (s.sendTo heap except text fd) := by
  obtain ⟨⟨str, rfl, hO⟩, hids⟩ := h
  change Follows _ ((if c.active fd ∧ fd ≠ except ∧ fd ≠ c.sockfd then _ else _ : Prog Unit) c)
    (if c.active fd ∧ fd ≠ except ∧ fd ≠ c.sockfd then _ else _)
  split_ifs
  · refine Follows.bind (strJoin_follows hO (.wbuf fd) hmsg hlen) fun buf c' y _ _ hjoin => ?_
    obtain ⟨b, s'⟩ := y
    obtain ⟨mem, n, rfl, rfl, ⟨rfl, rfl⟩ | ⟨p, t, rfl, rfl, -, hO'⟩⟩ := hjoin
    · exact fatal_follows rfl
    · rw [← Globals.buffer_wbuf] at hO'
      refine Follows.step rfl (Follows.step (string_run (hO'.pointsTo hmsg)) ?_)
      refine ⟨⟨update str (.wbuf fd) (some t), ?_, hO'⟩, hids⟩
      rw [Globals.state_wbuf]
      rfl
  · exact ⟨⟨str, rfl, hO⟩, hids⟩

theorem forM_follows {α : Type} {P : Globals → State → Prop} {f : α → Prog Unit}
    {g : State → α → Except State State}
    (h : ∀ a c s, P c s → Follows (fun x s => P x.2 s) (f a c) (g s a)) :
    ∀ (l : List α) (c : Globals) (s : State), P c s →
      Follows (fun x s => P x.2 s) (l.forM f c) (l.foldlM g s)
  | [], _, _, hP => hP
  | a :: l, c, s, hP => by
    rw [List.foldlM_cons]
    exact Follows.bind (h a c s hP) fun _ c' s' _ _ hP' => forM_follows h l c' s' hP'

theorem sendAll_follows (h : Models frame c s) (hmsg : PointsTo frame msg (cString text))
    (hlen : (cString text).length ≤ INT_MAX) (except : Nat) :
    Follows (fun x s => Models frame x.2 s) (sendAll heap except msg c)
      (s.sendAll heap except text) := by
  have hmaxfd : s.maxfd = c.maxfd := by
    obtain ⟨⟨str, rfl, -⟩, -⟩ := h
    rfl
  rw [State.sendAll, hmaxfd]
  exact forM_follows (P := Models frame)
    (fun fd c s h => sendTo_follows h hmsg hlen except fd) _ c s h

end Send

section Arrays

variable {heap : Nat → Bool} {c : Globals} {s : State} {frame : Blocks UInt8}
  {text : Str} {n b : Nat} {blk : Block UInt8}

/-- The memory of an array is there while the body runs, and no longer. -/
theorem withArray_follows {body : Ptr → Prog Unit} {y : Except State State} (h : Models frame c s)
    (P : Blocks UInt8 → Prop)
    (hbody : ∀ b c', frame b = none →
      Models (update frame b (some ⟨List.replicate n none, .stack⟩)) c' s →
      Follows (fun x s => ∃ frame' bytes, P frame' ∧ frame' b = none ∧
        Models (update frame' b (some ⟨bytes, .stack⟩)) x.2 s) (body ⟨b, 0⟩ c') y) :
    Follows (fun x s => ∃ frame', P frame' ∧ Models frame' x.2 s) (withArray n body c) y := by
  obtain ⟨⟨str, rfl, hO⟩, hids⟩ := h
  have hrun := hbody c.mem.blocks.length
    { c with mem := (c.mem.alloc .stack (List.replicate n none)).2 }
      (hO.frame_none c.mem.block_length)
    ⟨⟨str, rfl, hO.alloc .stack _⟩, hids⟩
  refine Follows.step rfl (Refines.andThen hrun fun x s' hpost => ?_)
  obtain ⟨frame', bytes, hP, hframe', ⟨str', rfl, hO'⟩, hids'⟩ := hpost
  obtain ⟨mem, hrelease, hmem⟩ := Mem.release_eq hO'.block_eq
  have hO'' := hO'.discard hframe'
  rw [← hmem] at hO''
  exact ⟨_, change_run (f := (·.release .stack _)) hrelease, frame', hP, ⟨str', rfl, hO''⟩, hids'⟩

theorem sprintf_run (text : Str) (h : Models (update frame b (some blk)) c s)
    (hroom : text.length < blk.bytes.length) (hlen : text.length ≤ INT_MAX) :
    ∃ mem bytes, sprintf ⟨b, 0⟩ text c = .ok ((), { c with mem := mem }) ∧
      Models (update frame b (some ⟨bytes, blk.storage⟩)) { c with mem := mem } s ∧
      Spells bytes (cString text) := by
  obtain ⟨⟨str, rfl, hO⟩, hids⟩ := h
  obtain ⟨mem, bytes, hwrite, hO', -, hs⟩ := hO.write hroom
  refine ⟨mem, bytes, ?_, ⟨⟨str, rfl, hO'⟩, hids⟩, hs⟩
  rw [sprintf, bind_run (int_run hlen)]
  exact change_run (f := (·.write _ _)) hwrite

/-- What a block of the frame holds. -/
theorem pointsTo_frame {bytes : List (Option UInt8)} {storage : Storage} (hs : Spells bytes text) :
    PointsTo (update frame b (some ⟨bytes, storage⟩)) ⟨b, 0⟩ text :=
  ⟨_, update_self _ _ _, hs⟩

theorem length_intToString {n : Nat} (h : n ≤ INT_MAX) : (intToString n).length ≤ 10 := by
  rw [ChannelCommandHandler.intToString_natCast, List.length_map,
    Nat.length_toDigits_le_iff (by omega) (by omega)]
  rw [INT_MAX] at h
  omega

theorem length_arrived {id : Nat} (h : id ≤ INT_MAX) : (arrived id).length < 64 := by
  have hlen := length_intToString h
  simp [arrived, lit]
  omega

theorem length_left {id : Nat} (h : id ≤ INT_MAX) : (left id).length < 64 := by
  have hlen := length_intToString h
  simp [left, lit]
  omega

theorem length_clientLine {id : Nat} (h : id ≤ INT_MAX) (line : Str) :
    (clientLine id line).length < line.length + 12 + 32 := by
  have hlen := length_intToString h
  simp [clientLine, lit]
  omega

theorem length_cString_le (s : Str) : (cString s).length ≤ s.length :=
  (List.takeWhile_sublist _).length_le

theorem acceptClient_follows {k : Calls} (h : Models frame c s) (hroom : FitsSet k) :
    Follows (fun x s => Models frame x.2 s) (acceptClient heap k c) (s.acceptClient heap k) := by
  refine Refines.mono (withArray_follows h (· = frame) fun b c' hframe hbody => ?_)
    fun x s _ _ hx => ?_
  swap
  · obtain ⟨_, rfl, hx⟩ := hx
    exact hx
  rw [State.acceptClient]
  rcases hconnfd : k.accept with _ | connfd
  · exact ⟨frame, _, rfl, hframe, hbody⟩
  · obtain ⟨⟨str, rfl, hO⟩, hids⟩ := hbody
    refine Follows.step rfl
      (Follows.bind (int_follows str (c'.nextId + 1)) fun _ c'' n _ _ hint => ?_)
    obtain ⟨heq, rfl, hnext⟩ := hint
    cases heq
    rw [if_pos (hroom connfd hconnfd), if_pos (hroom connfd hconnfd)]
    have hids' : ∀ fd, update c'.ids connfd c'.nextId fd ≤ INT_MAX := by
      intro fd
      rw [update_apply]
      split_ifs
      · omega
      · exact hids fd
    have hid : (update c'.ids connfd c'.nextId) connfd = c'.nextId := update_self _ _ _
    have hmsg := length_arrived (hids' connfd)
    obtain ⟨mem, bytes, hprint, hM, hs⟩ :=
      sprintf_run (arrived (update c'.ids connfd c'.nextId connfd))
      (c := { c' with
        ids := update c'.ids connfd c'.nextId
        nextId := c'.nextId + 1
        active := update c'.active connfd true
        maxfd := max c'.maxfd connfd
        trace := .accept connfd c'.nextId :: c'.trace })
      ⟨⟨str, rfl, hO⟩, hids'⟩ (by simpa using hmsg) (by rw [INT_MAX]; omega)
    refine Follows.step rfl (Follows.step rfl (Follows.step hprint ?_))
    have hlen := length_cString_le (arrived (update c'.ids connfd c'.nextId connfd))
    refine Refines.mono
      (sendAll_follows hM (pointsTo_frame hs) (by rw [INT_MAX]; omega) connfd) ?_
    exact fun x s _ _ hx => ⟨frame, bytes, rfl, hframe, hx⟩

end Arrays

section Extract

variable {heap : Nat → Bool} {c : Globals} {str : Slot → Option Str}
  {frame : Blocks UInt8} {buf : Ptr} {text : Str} {fd : Nat}

/-- The loop finds the first `\n`, or the end. -/
theorem seek_follows (hs : PointsTo c.mem.block buf text) (str : Slot → Option Str) :
    ∀ rounds i, i ≤ text.length → text.length - i < rounds → i ≤ INT_MAX →
      Follows (fun x n => x = (if n < text.length then some n else none, c) ∧ n ≤ INT_MAX ∧
          n = i + ((text.drop i).takeWhile (· ≠ lf)).length)
        (seek buf rounds i c)
        ((c.state str).int (i + ((text.drop i).takeWhile (· ≠ lf)).length))
  | 0, _, _, hrounds, _ => absurd hrounds (Nat.not_lt_zero _)
  | rounds + 1, i, hi, hrounds, hmax => by
    have hload : load (buf.add i) c = .ok ((text ++ [0]).getD i 0, c) := access_run (hs.load_eq hi)
    rw [seek, bind_run hload]
    rcases hi.eq_or_lt with rfl | hlt
    · have hzero : (text ++ [0]).getD text.length 0 = 0 := by simp
      rw [if_pos hzero, List.drop_length, List.takeWhile_nil, List.length_nil, Nat.add_zero,
        State.int, if_pos hmax]
      exact ⟨by rw [if_neg (lt_irrefl _)], hmax, rfl⟩
    · have hget : (text ++ [0]).getD i 0 = text[i] := by
        simp [List.getElem?_append_left hlt, hlt]
      have hne : text[i] ≠ 0 := fun h => hs.zero_notMem (h ▸ List.getElem_mem hlt)
      rw [hget, if_neg hne, List.drop_eq_getElem_cons hlt]
      by_cases hlf : text[i] = lf
      · rw [if_pos hlf, List.takeWhile_cons_of_neg (by simpa using hlf), List.length_nil,
          Nat.add_zero, State.int, if_pos hmax]
        exact ⟨by rw [if_pos hlt], hmax, rfl⟩
      · rw [if_neg hlf, List.takeWhile_cons_of_pos (by simpa using hlf), List.length_cons,
          Nat.add_comm _ 1, ← Nat.add_assoc]
        by_cases hnext : i + 1 ≤ INT_MAX
        · rw [bind_run (int_run hnext)]
          exact seek_follows hs str rounds (i + 1) hlt (by omega) hnext
        · rw [int, if_neg hnext]
          exact Refines.of_lost trivial _

/-- What `extract_message` gives for the buffer of `fd`. The block of the line is its caller's to
free. -/
inductive Taken (c : Globals) (str : Slot → Option Str) (frame : Blocks UInt8) (fd : Nat) :
    Extracted × Globals → MiniServ.Extracted × State → Prop
  | nothing : Taken c str frame fd (.nothing, c) (.nothing, c.state str)
  | failed {c' : Globals} {s : State} (h : c'.trace = s.trace) :
    Taken c str frame fd (.failed, c') (.failed, s)
  | message {mem : Mem UInt8} {b n : Nat} {bytes : List (Option UInt8)} {line rest : Str}
      (hframe : frame b = none) (hline : Spells bytes line) (hlen : line.length ≤ INT_MAX)
      (hshort : rest.length < ((str (.rbuf fd)).getD []).length)
      (hO : Owns mem.block (update c.buffer (.rbuf fd) (some ⟨n, 0⟩))
        (update str (.rbuf fd) (some rest))
        (update frame b (some ⟨bytes, .heap⟩))) :
      Taken c str frame fd (.message ⟨b, 0⟩ ⟨n, 0⟩, { c with mem := mem, allocs := c.allocs + 1 })
        (.message line rest, { c.state str with allocs := c.allocs + 1 })

theorem extractMessage_follows (fd : Nat) (hO : Owns c.mem.block c.buffer str frame)
    (hlen : ∀ text, str (.rbuf fd) = some text → text.length < 2 ^ 63) :
    Follows (Taken c str frame fd) (extractMessage heap (c.rbuf fd) c)
      ((c.state str).extractMessage heap (str (.rbuf fd))) := by
  rcases hp : c.rbuf fd with _ | p
  · rw [(hO.buffer (.rbuf fd)).of_none hp]
    exact .nothing
  obtain ⟨b, bytes, text, rfl, hstr, hblk, hs⟩ := (hO.buffer (.rbuf fd)).of_some hp
  have htext : PointsTo c.mem.block ⟨b, 0⟩ text := ⟨_, hblk, hs⟩
  have hbuf : c.buffer (.rbuf fd) = some ⟨b, 0⟩ := hp
  rw [hstr]
  refine Follows.step (access_run (Mem.size_eq hblk)) ?_
  have hseek := seek_follows htext str bytes.length 0 (Nat.zero_le _) hs.length_lt (Nat.zero_le _)
  rw [Nat.zero_add, List.drop_zero] at hseek
  refine Follows.bind hseek fun x c' i _ _ hi => ?_
  obtain ⟨heq, hmax, -⟩ := hi
  cases heq
  by_cases hi : i < text.length
  · rw [if_pos hi, if_pos hi]
    have hrest := htext.drop hi
    refine Follows.step (strlen_run hrest) ?_
    change Follows _ _ (.ok (if heap c.allocs = true then
        MiniServ.Extracted.message (text.take (i + 1))
          (text.drop (i + 1)) else MiniServ.Extracted.failed,
      { c.state str with allocs := c.allocs + 1 }))
    by_cases hheap : heap c.allocs = true
    · rw [if_pos hheap]
      obtain ⟨mem₁, n, hcalloc, hframe, hO₁⟩ :=
        obtainBlock_run ((text.drop (i + 1)).length + 1) (some 0) hO hheap (by
          have := hlen text hstr
          rw [List.length_drop]
          omega)
      refine Follows.step (x := calloc heap _) hcalloc ?_
      have hline : (text.take (i + 1)).length = i + 1 := by
        rw [List.length_take, Nat.min_eq_left hi]
      obtain ⟨mem₂, mem₃, bytes', hcopy, hwrite, hs', hO₃⟩ := hO₁.split (s := text.take (i + 1))
        (t := text.drop (i + 1)) hframe hbuf (by rw [hstr, List.take_append_drop]) (by simp)
      have hoff : (⟨b, (text.take (i + 1)).length⟩ : Ptr) = (⟨b, 0⟩ : Ptr).add (i + 1) := by
        rw [hline, Ptr.add, Nat.zero_add]
      rw [hoff] at hcopy hwrite
      refine Follows.step (c := { c with mem := mem₁, allocs := c.allocs + 1 })
        (change_run hcopy) ?_
      by_cases hnext : i + 1 ≤ INT_MAX
      · refine Follows.step (int_run hnext) ?_
        refine Follows.step (c := { c with mem := mem₂, allocs := c.allocs + 1 })
          (change_run hwrite) ?_
        refine .message (hO.apart _ b hbuf) hs' (hline.trans_le hnext) ?_ hO₃
        rw [hstr, Option.getD_some, List.length_drop]
        omega
      · rw [int, if_neg hnext]
        exact Refines.of_lost (e := Halt.ended (.undefined :: c.trace)) trivial _
    · rw [if_neg hheap]
      exact Follows.step (x := calloc heap _) (obtainBlock_none (by simpa using hheap))
        (.failed rfl)
  · rw [if_neg hi, if_neg hi]
    exact .nothing

theorem free_models {s : State} {b : Nat} {bytes : List (Option UInt8)}
    (h : Models (update frame b (some ⟨bytes, .heap⟩)) c s) (hframe : frame b = none) : ∃ mem,
      free (some ⟨b, 0⟩) c = .ok ((), { c with mem := mem }) ∧
      Models frame { c with mem := mem } s := by
  obtain ⟨⟨str, rfl, hO⟩, hids⟩ := h
  obtain ⟨mem, hfree, hO'⟩ := free_frame_run hO hframe
  exact ⟨mem, hfree, ⟨str, rfl, hO'⟩, hids⟩

theorem rbuf_sendAll {s s' : State} {except : Nat} (h : s.sendAll heap except text = .ok s') :
    s'.rbuf = s.rbuf := (foldlM_sendTo_ok List.nodup_range h).2

theorem extractAll_follows : ∀ (fuel : Nat) {c : Globals} {s : State}, Models frame c s →
    ((s.rbuf fd).getD []).length < fuel → ((s.rbuf fd).getD []).length < 2 ^ 63 →
      Follows (fun x s => Models frame x.2 s) (extractAll heap fd fuel c)
        (State.extractAll heap fd fuel s)
  | 0, _, _, _, hfuel, _ => absurd hfuel (Nat.not_lt_zero _)
  | fuel + 1, c, _, ⟨⟨str, rfl, hO⟩, hids⟩, hfuel, hlong => by
    refine Follows.step rfl (Follows.bind (extractMessage_follows fd hO fun text htext => ?_)
      fun x c' y _ _ htaken => ?_)
    · have hlen : ((str (.rbuf fd)).getD []).length < 2 ^ 63 := hlong
      rwa [htext] at hlen
    have hfuel' : ((str (.rbuf fd)).getD []).length < fuel + 1 := hfuel
    have hlong' : ((str (.rbuf fd)).getD []).length < 2 ^ 63 := hlong
    obtain _ | htrace | @⟨mem, b, n, bytes, line, rest, hframe, hline, hlen, hshort, hO'⟩ := htaken
    · exact ⟨⟨str, rfl, hO⟩, hids⟩
    · exact fatal_follows htrace
    rw [← Globals.buffer_rbuf] at hO'
    refine Follows.step rfl (Follows.step (strlen_run (hO'.pointsTo (pointsTo_frame hline))) ?_)
    set s₂ : State :=
      { (c.state str).setRbuf fd (some rest) with allocs := c.allocs + 1 + 1 } with hs₂
    change Follows _ _ (if heap (c.allocs + 1) = true then (do
      let _ ← s₂.int (clientLine (c.ids fd) line).length
      State.extractAll heap fd fuel
        (← s₂.sendAll heap fd (clientLine (c.ids fd) line))) else s₂.fatal)
    by_cases hheap : heap (c.allocs + 1) = true
    · rw [if_pos hheap]
      obtain ⟨mem₂, b₂, hmalloc, hframe₂, hO₂⟩ := obtainBlock_run (line.length + 12 + 32) none
        (c := { c with mem := mem, allocs := c.allocs + 1, rbuf := update c.rbuf fd (some ⟨n, 0⟩) })
        hO' hheap (by rw [INT_MAX] at hlen; omega)
      have hM₂ : Models _ { c with
          mem := mem₂, allocs := c.allocs + 1 + 1, rbuf := update c.rbuf fd (some ⟨n, 0⟩) } s₂ :=
        ⟨⟨_, by rw [Globals.state_rbuf]; rfl, hO₂⟩, hids⟩
      have hne := block_ne_of_pointsTo (pointsTo_frame hline) hframe₂
      have hstring := hO₂.pointsTo ((pointsTo_frame hline).update hne _)
      refine Follows.step (x := malloc heap _) hmalloc
        (Follows.step rfl (Follows.step (string_run hstring) ?_))
      have hroom := length_clientLine (hids fd) line
      by_cases hint : (clientLine (c.ids fd) line).length ≤ INT_MAX
      · obtain ⟨mem₃, bytes₃, hprint, hM₃, hs₃⟩ := sprintf_run (clientLine (c.ids fd) line) hM₂
          (by simpa using hroom) hint
        refine Follows.step hprint ?_
        rw [State.int, if_pos hint]
        change Follows _ _ (s₂.sendAll heap fd (clientLine (c.ids fd) line) >>=
          fun s => State.extractAll heap fd fuel s)
        have hcut := length_cString_le (clientLine (c.ids fd) line)
        refine Follows.bind (sendAll_follows hM₃ (pointsTo_frame hs₃) (hcut.trans hint) fd)
          fun _ c₄ s₄ _ hsend hM₄ => ?_
        obtain ⟨mem₅, hfree₅, hM₅⟩ := free_models hM₄ hframe₂
        obtain ⟨mem₆, hfree₆, hM₆⟩ := free_models hM₅ hframe
        have hrbuf : s₄.rbuf fd = some rest := by
          rw [rbuf_sendAll hsend]
          exact update_self _ _ _
        refine Follows.step hfree₅ (Follows.step hfree₆ (extractAll_follows fuel hM₆ ?_ ?_))
        · rw [hrbuf, Option.getD_some]
          omega
        · rw [hrbuf, Option.getD_some]
          omega
      · rw [sprintf, int, if_neg hint]
        exact Refines.of_lost (e := Halt.ended (.undefined :: c.trace)) trivial _
    · rw [if_neg hheap]
      exact Follows.step (x := malloc heap _) (obtainBlock_none (by simpa using hheap))
        (fatal_follows rfl)

end Extract

section Handle

variable {heap : Nat → Bool} {c : Globals} {s : State} {frame : Blocks UInt8} {b fd : Nat}
  {blk : Block UInt8}

theorem clientLeft_follows (h : Models (update frame b (some blk)) c s)
    (hroom : blk.bytes.length = 64) :
    Follows (fun x s => ∃ bytes, Models (update frame b (some ⟨bytes, blk.storage⟩)) x.2 s)
      (clientLeft heap fd ⟨b, 0⟩ c) ((s.dismiss fd).sendAll heap fd (left (s.ids fd))) := by
  have hids : s.ids fd = c.ids fd := by
    obtain ⟨⟨str, rfl, -⟩, -⟩ := h
    rfl
  have hlen := length_left (h.ids fd)
  obtain ⟨mem₁, bytes, hprint, ⟨⟨str, rfl, hO₁⟩, hids₁⟩, hs⟩ := sprintf_run (left (c.ids fd)) h
    (by omega) (by rw [INT_MAX]; omega)
  refine Follows.step rfl (Follows.step hprint (Follows.step rfl ?_))
  obtain ⟨mem₂, hfree₂, hO₂⟩ := free_run hO₁ (.rbuf fd)
  rw [← Globals.buffer_rbuf] at hO₂
  refine Follows.step hfree₂ (Follows.step rfl (Follows.step rfl ?_))
  obtain ⟨mem₃, hfree₃, hO₃⟩ :=
    free_run (c := { c with mem := mem₂, rbuf := update c.rbuf fd none }) hO₂ (.wbuf fd)
  rw [← Globals.buffer_wbuf] at hO₃
  have hM : Models (update frame b (some ⟨bytes, blk.storage⟩)) { c with
      mem := mem₃, rbuf := update c.rbuf fd none, wbuf := update c.wbuf fd none
      active := update c.active fd false, trace := .leave fd :: c.trace }
        ((c.state str).dismiss fd) := by
    refine ⟨⟨_, ?_, hO₃⟩, hids₁⟩
    rw [Globals.state_wbuf, Globals.state_rbuf]
    rfl
  have hcut := length_cString_le (left (c.ids fd))
  refine Follows.step hfree₃ (Follows.step rfl (Follows.step rfl (Follows.step rfl ?_)))
  refine Refines.mono (sendAll_follows hM (pointsTo_frame hs) (by rw [INT_MAX]; omega) fd) ?_
  exact fun x s _ _ hx => ⟨bytes, hx⟩

theorem clientSent_follows {data : Str} (h : Models (update frame b (some blk)) c s)
    (hroom : data.length < blk.bytes.length) (hdata : data.length ≤ INT_MAX) :
    Follows (fun x s => ∃ bytes, Models (update frame b (some ⟨bytes, blk.storage⟩)) x.2 s)
      (clientSent heap fd ⟨b, 0⟩ data c) (do
        let s := s.log (.receive fd data)
        let (buf, s) ← s.strJoin heap (s.rbuf fd) data
        match buf with
        | none => s.fatal
        | some buf => State.extractAll heap fd (buf.length + 1) (s.setRbuf fd (some buf))) := by
  obtain ⟨⟨str, rfl, hO⟩, hids⟩ := h
  obtain ⟨mem₁, mem₂, bytes, hwrite₁, hwrite₂, hO₂, hs⟩ := hO.write_end hroom
  have hrun₁ : change (·.write ⟨b, 0⟩ data) { c with trace := .receive fd data :: c.trace } =
      .ok ((), { c with mem := mem₁, trace := .receive fd data :: c.trace }) := change_run hwrite₁
  have hrun₂ : store ((⟨b, 0⟩ : Ptr).add data.length) 0
      { c with mem := mem₁, trace := .receive fd data :: c.trace } =
      .ok ((), { c with mem := mem₂, trace := .receive fd data :: c.trace }) := by
    rw [Ptr.add, Nat.zero_add]
    exact change_run hwrite₂
  refine Follows.step rfl (Follows.step hrun₁ (Follows.step hrun₂ (Follows.step rfl ?_)))
  have hcut := length_cString_le data
  refine Follows.bind
    (strJoin_follows (c := { c with mem := mem₂, trace := .receive fd data :: c.trace }) hO₂
    (.rbuf fd) (pointsTo_frame hs) (hcut.trans hdata)) fun buf c' y _ _ hjoin => ?_
  obtain ⟨text, s'⟩ := y
  obtain ⟨mem, n, rfl, rfl, ⟨rfl, rfl⟩ | ⟨p, t, rfl, rfl, hlen, hO'⟩⟩ := hjoin
  · exact fatal_follows rfl
  · have htext := hO'.pointsTo_buffer (update_self (Slot.rbuf fd) _ _) (update_self _ _ _)
    rw [← Globals.buffer_rbuf] at hO'
    refine Follows.step rfl (Follows.step (strlen_run htext) ?_)
    have hM : Models (update frame b (some ⟨bytes, blk.storage⟩)) { c with
        mem := mem, allocs := n, rbuf := update c.rbuf fd (some p)
        trace := .receive fd data :: c.trace }
        (({ c.state str with allocs := n, trace := .receive fd data :: c.trace } : State).setRbuf fd
          (some t)) := by
      refine ⟨⟨_, ?_, hO'⟩, hids⟩
      rw [Globals.state_rbuf]
      rfl
    have hbuf : ∀ s : State, ((s.setRbuf fd (some t)).rbuf fd).getD [] = t := by
      simp [State.setRbuf]
    refine Refines.mono (extractAll_follows _ hM ?_ ?_) fun x s _ _ hx => ⟨bytes, hx⟩
    · rw [hbuf]
      exact Nat.lt_succ_self _
    · rw [hbuf]
      exact hlen

theorem handleClient_follows (h : Models frame c s) (k : Calls) :
    Follows (fun x s => Models frame x.2 s) (handleClient heap k fd c)
      (s.handleClient heap k fd) := by
  refine Refines.mono (withArray_follows h (· = frame) fun b c₁ hframe h₁ => ?_)
    fun x s _ _ hx => ?_
  swap
  · obtain ⟨_, rfl, hx⟩ := hx
    exact hx
  let P : Blocks UInt8 → Prop := fun frame' => ∃ bytes, frame' = update frame b (some ⟨bytes, .stack⟩)
  refine Refines.mono (withArray_follows h₁ P fun b' c₂ hframe' h₂ => ?_) fun x s _ _ hx => ?_
  swap
  · obtain ⟨_, ⟨bytes, rfl⟩, hx⟩ := hx
    exact ⟨frame, bytes, rfl, hframe, hx⟩
  have hne : b' ≠ b := by
    rintro rfl
    rw [update_self] at hframe'
    exact Option.some_ne_none _ hframe'
  rw [State.handleClient]
  rcases hdata : (k.recv.getD []).take 4096 with _ | ⟨x, data⟩
  · refine Refines.mono (clientLeft_follows h₂ List.length_replicate) fun x s _ _ hx => ?_
    obtain ⟨bytes, hx⟩ := hx
    exact ⟨_, bytes, ⟨_, rfl⟩, hframe', hx⟩
  · have hlen : (x :: data).length ≤ 4096 := by
      rw [← hdata]
      exact List.length_take_le _ _
    rw [update_comm hne.symm] at h₂
    have hroom : (x :: data).length < (List.replicate 4097 (none : Option UInt8)).length := by
      rw [List.length_replicate]
      omega
    have hint : (x :: data).length ≤ INT_MAX := by
      rw [INT_MAX]
      omega
    refine Refines.mono (clientSent_follows h₂ hroom hint) fun x s _ _ hx => ?_
    obtain ⟨bytes, hx⟩ := hx
    rw [update_comm hne] at hx
    refine ⟨_, _, ⟨bytes, rfl⟩, ?_, hx⟩
    rw [update_of_ne hne]
    rwa [update_of_ne hne] at hframe'

end Handle

section Flush

variable {heap : Nat → Bool} {c : Globals} {s : State} {frame : Blocks UInt8} {fd : Nat}

theorem flushClient_follows (h : Models frame c s) (k : Calls) (hwbuf : s.wbuf fd ≠ none) :
    Follows (fun x s => Models frame x.2 s) (flushClient heap k fd c)
      (s.flushClient heap k fd) := by
  obtain ⟨⟨str, rfl, hO⟩, hids⟩ := h
  rcases hp : c.buffer (.wbuf fd) with _ | p
  · exact absurd ((hO.buffer (.wbuf fd)).of_none hp) hwbuf
  obtain ⟨b, bytes, text, rfl, hstr, hblk, hs⟩ := (hO.buffer (.wbuf fd)).of_some hp
  have htext : PointsTo c.mem.block ⟨b, 0⟩ text := ⟨_, hblk, hs⟩
  have hget : c.wbuf fd = some ⟨b, 0⟩ := hp
  have hstate : (c.state str).wbuf fd = some text := hstr
  set c₁ : Globals := { c with trace := .flush fd (some text) :: c.trace } with hc₁
  have htext₁ : PointsTo c₁.mem.block ⟨b, 0⟩ text := htext
  simp only [State.flushClient, State.wbuf_log, hstate]
  refine Follows.step rfl ?_
  rw [hget]
  refine Follows.step (string_run htext) (Follows.step rfl ?_)
  have hlen : Follows (fun x n => x = (text.length, c₁) ∧ n = text.length ∧ text.length ≤ INT_MAX)
      ((strlen ⟨b, 0⟩ >>= int) c₁) ((c₁.state str).int text.length) :=
    Follows.step (strlen_run htext₁) (int_follows str text.length)
  refine Follows.bind hlen fun x c' len _ _ hx => ?_
  obtain ⟨heq, rfl, hmax⟩ := hx
  cases heq
  refine Follows.step (access_run htext₁.bytes_eq) (Follows.step rfl ?_)
  have hn : min k.send text.length ≤ text.length := Nat.min_le_right _ _
  set n := min k.send text.length with hndef
  by_cases hzero : n = 0
  · rw [if_pos hzero, if_pos hzero]
    exact ⟨⟨str, rfl, hO⟩, hids⟩
  rw [if_neg hzero, if_neg hzero]
  by_cases hall : n = text.length
  · rw [if_pos hall, if_pos hall]
    obtain ⟨mem, hfree, hO'⟩ := free_run
      (c := { c₁ with trace := .send fd (text.take n) :: c₁.trace }) hO (.wbuf fd)
    rw [hp] at hfree
    rw [← Globals.buffer_wbuf] at hO'
    refine Follows.step hfree ⟨⟨_, ?_, hO'⟩, hids⟩
    rw [Globals.state_wbuf]
    rfl
  rw [if_neg hall, if_neg hall]
  change Follows _ _ (if heap c.allocs = true then
      .ok (({ c.state str with
        allocs := c.allocs + 1
        trace := .send fd (text.take n) :: .flush fd (some text) :: c.trace } : State).setWbuf fd
          (some (text.drop n)))
    else ({ c.state str with
      allocs := c.allocs + 1
      trace := .send fd (text.take n) :: .flush fd (some text) :: c.trace } : State).fatal)
  by_cases hheap : heap c.allocs = true
  · rw [if_pos hheap]
    obtain ⟨mem₂, b₂, hmalloc, hframe, hO₂⟩ := obtainBlock_run (text.length - n + 1) none
      (c := { c₁ with trace := .send fd (text.take n) :: c₁.trace }) hO hheap (by
        rw [INT_MAX] at hmax
        omega)
    refine Follows.step (x := malloc heap _) hmalloc ?_
    have hne : b ≠ b₂ := hO₂.ne_of_frame hp
    have htext₂ : PointsTo mem₂.block ⟨b, 0⟩ text := hO₂.pointsTo_buffer hp hstr
    obtain ⟨mem₃, bytes₃, hcopy, hO₃, -, hs₃⟩ := hO₂.strcpy (htext₂.drop hn) hne (by
      rw [List.length_replicate, List.length_drop]
      omega)
    have hrun₃ : strcpy ⟨b₂, 0⟩ ((⟨b, 0⟩ : Ptr).add n) { c₁ with
          mem := mem₂, allocs := c.allocs + 1, trace := .send fd (text.take n) :: c₁.trace } =
        .ok ((), { c₁ with
          mem := mem₃, allocs := c.allocs + 1, trace := .send fd (text.take n) :: c₁.trace }) :=
      change_run hcopy
    refine Follows.step hrun₃ ?_
    obtain ⟨mem₄, hfree, hO₄⟩ := free_run (c := { c₁ with
      mem := mem₃, allocs := c.allocs + 1, trace := .send fd (text.take n) :: c₁.trace })
        hO₃ (.wbuf fd)
    rw [hp] at hfree
    have hO₅ := hO₄.adopt (update_self _ _ _) hframe hs₃
    rw [update_idem, update_idem, ← Globals.buffer_wbuf] at hO₅
    refine Follows.step hfree ⟨⟨_, ?_, hO₅⟩, hids⟩
    rw [Globals.state_wbuf]
    rfl
  · rw [if_neg hheap]
    exact Follows.step (x := malloc heap _) (obtainBlock_none (by simpa using hheap))
      (fatal_follows rfl)

end Flush

section Runs

variable {heap : Nat → Bool} {k : Calls} {rfds wfds : FdSet} {c : Globals} {s : State}
  {frame : Blocks UInt8} {fd sockfd : Nat} {m : Machine}

theorem visitRead_follows (h : Models frame c s) (hroom : FitsSet k) (rfds : FdSet) (fd : Nat) :
    Follows (fun x s => Models frame x.2 s) (visitRead heap k rfds fd c)
      (s.visitRead heap k rfds fd) := by
  have hsock : s.sockfd = c.sockfd := by
    obtain ⟨⟨str, rfl, -⟩, -⟩ := h
    rfl
  rw [State.visitRead, hsock]
  change Follows _ ((if rfds fd = true then _ else _ : Prog Unit) c) _
  split_ifs with hfd heq
  · refine Follows.step rfl ?_
    rw [if_pos heq]
    exact acceptClient_follows h hroom
  · refine Follows.step rfl ?_
    rw [if_neg heq]
    exact handleClient_follows h k
  · exact h

theorem visitWrite_follows (h : Models frame c s) (k : Calls)
    (hwbuf : wfds fd = true → s.active fd = true → s.wbuf fd ≠ none) :
    Follows (fun x s => Models frame x.2 s) (visitWrite heap k wfds fd c)
      (s.visitWrite heap k wfds fd) := by
  have hactive : s.active = c.active := by
    obtain ⟨⟨str, rfl, -⟩, -⟩ := h
    rfl
  rw [State.visitWrite, hactive]
  refine Follows.step rfl ?_
  split_ifs with hfd
  · exact flushClient_follows h k (hwbuf hfd.1 (by rw [hactive]; exact hfd.2))
  · exact h

theorem visit_follows (h : Models frame c s) (hs : Sound s) (hroom : FitsSet k)
    (hscan : (MiniServ.Machine.mk (.scan rfds wfds fd) s).Scanning) :
    Follows (fun x s => Models frame x.2 s) (visit heap k rfds wfds fd c)
      (s.visit heap k rfds wfds fd) := by
  obtain ⟨hr, hw⟩ := hscan fd (Nat.le_refl fd)
  refine Follows.bind (visitRead_follows h hroom rfds fd) fun _ c₁ s₁ _ hread h₁ => ?_
  refine visitWrite_follows h₁ k fun hwfds hactive => ?_
  exact ((visitRead_ok hs.bounded hr hread).keeps (hw hwfds).1).2 (hw hwfds).2 hactive

theorem Machine.step_refines (heap : Nat → Bool) {s : MiniServ.Machine} (h : m.Models s)
    (hs : Sound s.state)
    (hscan : s.Scanning) (hroom : FitsSet k) :
    Refines Halt.lost Halt.agrees Machine.Models (m.step heap k) (s.step heap k) := by
  obtain ⟨phase, c⟩ := m
  obtain ⟨phase', s⟩ := s
  obtain ⟨hphase, hglobals⟩ := h
  obtain rfl : phase = phase' := hphase
  obtain ⟨⟨str, hstate, hO⟩, hids⟩ := id hglobals
  obtain rfl : s = c.state str := hstate
  rcases phase with _ | ⟨rfds, wfds, fd⟩
  · rw [Machine.step, MiniServ.Machine.step]
    rcases k.select with _ | ⟨r, w⟩
    · exact .inr rfl
    · refine ⟨congrArg (Phase.scan _ · 0) (funext fun fd => ?_), hglobals⟩
      have hbuf : (c.wbuf fd).isSome = (str (.wbuf fd)).isSome := (hO.buffer (.wbuf fd)).isSome_eq
      dsimp only
      rw [hbuf]
      rfl
  · rw [Machine.step, MiniServ.Machine.step]
    change Refines _ _ _ (if fd ≤ c.maxfd then _ else _) (if fd ≤ c.maxfd then _ else _)
    split_ifs
    · exact Refines.bind (visit_follows hglobals hs hroom hscan) fun _ _ _ _ hx => ⟨rfl, hx⟩
    · exact ⟨rfl, hglobals⟩

theorem Machine.initMachine_models (sockfd : Nat) :
    (initMachine sockfd).Models (MiniServ.initMachine sockfd) := by
  refine ⟨rfl, ⟨⟨fun _ => none, rfl,
    ⟨fun i => ?_, fun i j p hi => ?_, fun i b hi => ?_, fun b _ => rfl⟩⟩, fun fd => ?_⟩⟩
  · cases i <;> exact .null
  · cases i <;> simp [initMachine, Globals.buffer] at hi
  · rfl
  · exact Nat.zero_le _

theorem Reachable.models (h : Reachable heap sockfd m) :
    ∃ s, MiniServ.Reachable heap sockfd (fun _ => True) s ∧ m.Models s := by
  induction h with
  | start => exact ⟨_, .start, Machine.initMachine_models sockfd⟩
  | @step m m' k _ hfresh hroom hstep ih =>
    obtain ⟨s, hs, hm⟩ := ih
    have hrefines := Machine.step_refines heap hm hs.sound.1 hs.sound.2 hroom
    rw [hstep] at hrefines
    rcases hs' : s.step heap k with s' | s'
    · rw [hs'] at hrefines
      exact hrefines.elim
    · rw [hs'] at hrefines
      refine ⟨s', hs.step (fun connfd hk => ?_) trivial hs', hrefines⟩
      obtain ⟨str, hstate, -⟩ := hm.globals.buffers
      rw [hstate]
      exact hfresh connfd hk

/-- Every run of the program with pointers is one of the program with strings: each buffer holds its
string, in a block to which there is no other pointer, and there are no other blocks. Whatever comes
next, no access is a `fault`, and the two do the same, also if it ends the process, unless an `int`
is too small or `accept` gives a descriptor for which `fd_set` has no room. No descriptor in use is
beyond `g_maxfd`, which fits, and one that is not in use has no memory. -/
theorem run_memory (hsock : sockfd < FD_SETSIZE) (h : Reachable heap sockfd m) :
    (∃ s, MiniServ.Reachable heap sockfd (fun _ => True) s ∧ m.Models s ∧
      ∀ k, FitsSet k →
        Refines Halt.lost Halt.agrees Machine.Models (m.step heap k) (s.step heap k)) ∧
      (∀ k, FitsSet k → m.step heap k ≠ .error .fault) ∧
      (∀ b, m.globals.mem.block b ≠ none ↔ ∃! i, m.globals.buffer i = some ⟨b, 0⟩) ∧
      (∀ fd, m.globals.active fd = true → fd ≤ m.globals.maxfd) ∧ m.globals.maxfd < FD_SETSIZE ∧
      ∀ fd, m.globals.active fd = false → m.globals.rbuf fd = none ∧ m.globals.wbuf fd = none := by
  obtain ⟨s, hs, hm⟩ := h.models
  obtain ⟨hsound, hscan⟩ := hs.sound
  have hrefines := fun k => Machine.step_refines (k := k) heap hm hsound hscan
  obtain ⟨str, hstate, hO⟩ := hm.globals.buffers
  have hmaxfd := hs.maxfd_lt hsock
  have hbounded := hsound.bounded
  rw [State.Bounded] at hbounded
  rw [hstate] at hmaxfd hbounded
  refine ⟨⟨s, hs, hm, hrefines⟩, fun k hroom hfault => ?_, fun b => ⟨fun hb => ?_, fun hb => ?_⟩,
    hbounded, hmaxfd, fun fd hfd => ?_⟩
  · have hk := hrefines k hroom
    rw [hfault] at hk
    rcases hs' : s.step heap k with s' | s'
    · rw [hs'] at hk
      exact hk.elim id id
    · rw [hs'] at hk
      exact hk
  · by_contra hnone
    refine hb (hO.rest b fun i hi => hnone ⟨i, hi, fun j hj => hO.inj j i _ hj hi⟩)
  · obtain ⟨i, hi, -⟩ := hb
    exact fun hnone => hO.not_owned_of_none hnone i hi
  · have hclosed := hsound.closed fd (by rw [hstate]; exact hfd)
    rw [hstate] at hclosed
    exact ⟨(hO.buffer (.rbuf fd)).eq_none hclosed.1, (hO.buffer (.wbuf fd)).eq_none hclosed.2⟩

/-- The second client has just arrived, and one block is there: what the first one is to be told. -/
theorem run_memory_waiting : ∃ m, Reachable (fun _ => true) 0 m ∧ m.globals.wbuf 1 = some ⟨2, 0⟩ ∧
    m.globals.mem.string ⟨2, 0⟩ = some (arrived 1) ∧ ∃! i, m.globals.buffer i = some ⟨2, 0⟩ := by
  let calls : List Calls :=
    [{ select := some (fun fd => fd == 0, fun _ => false) }, { accept := some 1 }, {}, {},
    { select := some (fun fd => fd == 0, fun _ => false) }, { accept := some 2 }]
  have hplay : ((initMachine 0).play (fun _ => true) calls).map (fun m =>
      (m.globals.wbuf 1, m.globals.mem.string ⟨2, 0⟩)) = some (some ⟨2, 0⟩, some (arrived 1)) := by
    decide +kernel
  obtain ⟨m, hm, heq⟩ := Option.map_eq_some_iff.1 hplay
  obtain ⟨hwbuf, hstring⟩ := Prod.mk.inj heq
  have h : Reachable (fun _ => true) 0 m := Reachable.start.play hm
  refine ⟨m, h, hwbuf, hstring, ((run_memory (by decide) h).2.2.1 2).1 fun hnone => ?_⟩
  rw [Mem.string, hnone] at hstring
  simp at hstring

end Runs

end C

end MiniServ

end Ircserv
