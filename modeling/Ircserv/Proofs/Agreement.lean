import Ircserv.Proofs.Moves

/-!
# The tables over a run

At the start of every pass the four tables agree, and over the whole run no descriptor is used
between its being closed and its being accepted again.
-/

open Std

namespace Ircserv

/-- The descriptors an event polls, reads, writes or closes. -/
def Event.Uses (fd : Fd) : Event → Prop
  | .poll fds => fd ∈ fds
  | .recv g _ | .send g _ _ | .close g => g = fd
  | _ => False

namespace Disciplined

variable {tr : List Event}

theorem of_suffix {earlier : List Event} : ∀ {tr : List Event}, Disciplined tr →
    earlier <:+ tr → Disciplined earlier
  | [], h, hs => by
    rw [List.suffix_nil.1 hs]
    exact h
  | e :: tr, h, hs => by
    rcases List.suffix_cons_iff.1 hs with rfl | hs
    · exact h
    · exact of_suffix h.2 hs

/-- A descriptor that was closed and is open again was accepted in between. -/
theorem accept_mem {fd : Fd} {earlier : List Event} : ∀ {mid : List Event},
    Disciplined (mid ++ .close fd :: earlier) → fd ∈ openFds (mid ++ .close fd :: earlier) →
      .accept fd ∈ mid
  | [], _, hfd => by simp [openFds] at hfd
  | e :: mid, h, hfd => by
    have ih : fd ∈ openFds (mid ++ .close fd :: earlier) → .accept fd ∈ mid := accept_mem h.2
    have hs := h.1
    cases e with
    | listen g => simp [Event.Sound] at hs
    | accept g =>
      rcases List.mem_cons.1 hfd with rfl | hfd
      · exact List.mem_cons_self
      · exact List.mem_cons_of_mem _ (ih hfd)
    | close g => exact List.mem_cons_of_mem _ (ih (List.mem_filter.1 hfd).1)
    | _ => exact List.mem_cons_of_mem _ (ih hfd)

theorem uses_mem {e : Event} {fd : Fd} {earlier : List Event} (h : e.Sound earlier)
    (hu : e.Uses fd) : fd ∈ openFds earlier := by
  cases e with
  | poll fds => exact h fd hu
  | recv g _ | send g _ _ | close g =>
    cases hu
    exact h
  | _ => exact hu.elim

end Disciplined

/-- The listening descriptor does not change. -/
theorem Reachable.listenFd_eq {listenFd : Fd} {password : Str} {m : Machine}
    (h : Reachable listenFd password m) : m.server.listenFd = listenFd := by
  refine h.invariant (I := fun s => s.listenFd = listenFd) rfl ?_ fun _ hI _ => hI
  intro s s' _ _ hI hm
  rw [hm.listenFd, hI]

/-- In every pass of the loop the poll array, the connections, the registered clients and the
monitored clients agree, and every entry leads to a connection; over the whole run no closed
descriptor is used before it is accepted anew, and no null or dangling entry is followed. -/
theorem run_tables {listenFd : Fd} {password : Str} {m : Machine}
    (h : Reachable listenFd password m) :
    (m.phase = .poll →
      (m.server.pollfds.map (·.fd)).count listenFd = 1 ∧ listenFd ∉ m.server.connections ∧
      (∀ fd ∈ m.server.connections, (m.server.pollfds.map (·.fd)).count fd = 1) ∧
      (∀ e ∈ m.server.pollfds, e.fd = listenFd ∨ e.fd ∈ m.server.connections) ∧
      (∀ fd, fd ∈ m.server.connections ↔ (m.server.state.getClientByFd fd).isSome = true) ∧
      (∀ (fd : Fd) (conn : Option Addr), m.server.connections[fd]? = some conn →
        ∃ p c, conn = some p ∧ m.server.objects[p]? = some c) ∧
      ∀ fd ∈ m.server.healthMonitor.clients, fd ∈ m.server.connections) ∧
    (∀ fd, Event.fault fd ∉ m.server.trace) ∧
    ∀ later e mid fd earlier, m.server.trace = later ++ e :: (mid ++ .close fd :: earlier) →
      e.Uses fd → .accept fd ∈ mid := by
  have hdisc := h.good.disciplined
  refine ⟨fun hpoll => ?_, fun fd hfd => ?_, fun later e mid fd earlier htr hu => ?_⟩
  · have ht : Tables m.server := h.good.tables (by rw [hpoll]; exact nofun)
    have hlisten := h.listenFd_eq
    have hcount : ∀ fd, fd = listenFd ∨ fd ∈ m.server.connections →
        (m.server.pollfds.map (·.fd)).count fd = 1 := by
      intro fd hfd
      rw [← hlisten] at hfd
      exact List.count_eq_one_of_mem ht.nodup ((ht.polled fd).2 hfd)
    refine ⟨hcount _ (.inl rfl), ?_, fun fd hfd => hcount fd (.inr hfd), fun e he => ?_,
      fun fd => ?_, fun fd conn hfd => ?_, ht.monitored⟩
    · rw [← hlisten]
      exact ht.listening
    · rw [← hlisten]
      exact (ht.polled e.fd).1 (List.mem_map.2 ⟨e, he, rfl⟩)
    · rw [ht.known, ExtTreeMap.mem_iff_isSome_getElem?]
      rfl
    · obtain ⟨p, c, hp, hc, -⟩ := ht.live fd conn hfd
      exact ⟨p, c, hp, hc⟩
  · obtain ⟨later, earlier, htr⟩ := List.append_of_mem hfd
    have hs : .fault fd :: earlier <:+ m.server.trace := ⟨later, htr.symm⟩
    exact (hdisc.of_suffix hs).1
  · have hs : e :: (mid ++ .close fd :: earlier) <:+ m.server.trace := ⟨later, htr.symm⟩
    have hsuf := hdisc.of_suffix hs
    exact hsuf.2.accept_mem (Disciplined.uses_mem hsuf.1 hu)

/-- The case of one client, accepted in the first pass. -/
theorem run_tables_accepted :
    let m := (Machine.start 3 (lit "pw")).run [.ready [POLLIN], .accepts 5, {}, {}, {}]
    m.phase = .poll ∧ (5 : Fd) ∈ m.server.connections ∧
      (m.server.pollfds.map (·.fd)).count 5 = 1 := by
  intro m
  have hm : Reachable 3 (lit "pw") m := .run _ .start (by decide +kernel)
  have hfd : (5 : Fd) ∈ m.server.connections := by decide +kernel
  have hpoll : m.phase = .poll := by decide +kernel
  exact ⟨hpoll, hfd, ((run_tables hm).1 hpoll).2.2.1 5 hfd⟩

end Ircserv
