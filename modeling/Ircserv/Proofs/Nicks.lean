import Ircserv.Proofs.Removal

/-!
# The nickname map

`Nicks` says that the map holds every client that has a nick under exactly that nick, and holds
nothing else. A change of letter case erases the old entry before it inserts the new one, so the
stored key follows the nick.
-/

open Std

namespace Ircserv

structure Nicks (s : ServerState) : Prop where
  owner : ∀ n p, s.client.nicknameToClient[n]? = some p → p ∈ s.client.objects ∧
    caseFold (s.clientAt p).nickname = caseFold n ∧
    s.client.nicknameToClient.getKey? n = some (s.clientAt p).nickname
  holder : ∀ p ∈ s.client.objects, (s.clientAt p).nickname ≠ [] →
    s.client.nicknameToClient[(s.clientAt p).nickname]? = some p
  named : ∀ n ∈ s.client.nicknameToClient, n ≠ []

theorem caseFold_eq_nil {n : Str} : caseFold n = [] ↔ n = [] := List.map_eq_nil_iff

namespace Nicks

variable {s s' : ServerState} {p : Addr}

theorem start (password : Str) : Nicks { password := password } where
  owner := by simp
  holder := by simp
  named := by simp

/-- What the map holds depends on nothing but the nicks. -/
theorem congr (h : Nicks s) (hnicks : s'.client.nicknameToClient = s.client.nicknameToClient)
    (hlive : ∀ q, q ∈ s'.client.objects ↔ q ∈ s.client.objects)
    (hnick : ∀ q, (s'.clientAt q).nickname = (s.clientAt q).nickname) : Nicks s' where
  owner := by
    intro n q hq
    rw [hnicks] at hq ⊢
    rw [hlive, hnick]
    exact h.owner n q hq
  holder := by
    intro q hq hne
    rw [hnick] at hne ⊢
    rw [hnicks]
    exact h.holder q ((hlive q).1 hq) hne
  named := by
    rw [hnicks]
    exact h.named

theorem sameClients (h : Nicks s) (hs : SameClients s s') : Nicks s' := by
  refine h.congr hs.nicks hs.live fun q => ?_
  obtain ⟨cs, hcs⟩ := hs.data q
  rw [hcs]

theorem modifyClient (h : Nicks s) {f : Client → Client} (hf : ∀ c, (f c).nickname = c.nickname) :
    Nicks (s.modifyClient p f) := by
  refine h.congr rfl (by simp) fun q => ?_
  rw [ServerState.clientAt_modifyClient]
  split_ifs <;> simp [hf]

/-- A new client, which has no nick yet. -/
theorem insert (h : Nicks s) {fd : Fd} {host : Str} {fds : ExtTreeMap Fd Addr}
    (hp : p ∉ s.client.objects) :
    Nicks { s with client := { s.client with
      objects := s.client.objects.insert p { host := host, fd := fd }
      fdToClient := fds } } := by
  set s' : ServerState := { s with client := { s.client with
    objects := s.client.objects.insert p { host := host, fd := fd }
    fdToClient := fds } } with hs'
  have hat : ∀ q, s'.clientAt q = if p = q then { host := host, fd := fd } else s.clientAt q := by
    intro q
    simp [hs', ServerState.clientAt, ClientRegistry.deref]
  have hobj : ∀ q, q ∈ s'.client.objects ↔ p = q ∨ q ∈ s.client.objects := by simp [hs']
  refine ⟨fun n q hq => ?_, fun q hq hne => ?_, h.named⟩
  · obtain ⟨h1, h2⟩ := h.owner n q hq
    rw [hobj, hat, if_neg (by rintro rfl; exact hp h1)]
    exact ⟨.inr h1, h2⟩
  · rw [hat] at hne ⊢
    split_ifs at hne ⊢ with hpq
    · exact absurd rfl hne
    · exact h.holder q (((hobj q).1 hq).resolve_left hpq) hne

theorem addClient (h : Nicks s) (addr : Addr) (fd : Fd) (host : Str) :
    Nicks (s.addClient addr fd host) := by
  rcases hfd : s.client.fdToClient[fd]? with _ | p
  all_goals simp only [ServerState.addClient, ClientRegistry.addClient,
    ClientRegistry.getClientByFd, hfd]
  · exact h.insert (Heap.fresh_not_mem _ _)
  · exact h

/-- The registry deletes a client along with its nick. -/
theorem erase (h : Nicks s) {fd : Fd} (hp : s.client.fdToClient[fd]? = some p)
    (hlive : p ∈ s.client.objects) : Nicks { s with client := s.client.removeClient fd } := by
  set s' : ServerState := { s with client := s.client.removeClient fd } with hs'
  have hreg := ServerState.client_removeClient hp
  have hat : ∀ q, s'.clientAt q = _ := ServerState.clientAt_erase hp
  have hobj : ∀ q, q ∈ s'.client.objects ↔ _ := ServerState.mem_erase hp
  have hkey : ∀ n, s'.client.nicknameToClient[n]? =
      if caseFold (s.clientAt p).nickname = caseFold n then none
      else s.client.nicknameToClient[n]? := by
    intro n
    simp [hs', hreg, ExtTreeMap.getElem?_erase]
  refine ⟨fun n q hq => ?_, fun q hq hne => ?_, fun n hn => ?_⟩
  · rw [hkey] at hq
    split_ifs at hq with hf
    obtain ⟨h1, h2, h3⟩ := h.owner n q hq
    have hpq : p ≠ q := by
      rintro rfl
      exact hf h2
    rw [hobj, hat, if_neg hpq]
    exact ⟨⟨hpq, h1⟩, h2, by simp [hs', hreg, ExtTreeMap.getKey?_erase, hf, h3]⟩
  · obtain ⟨hpq, hq⟩ := (hobj q).1 hq
    rw [hat, if_neg hpq] at hne ⊢
    have hq' := h.holder q hq hne
    rw [hkey, if_neg]
    · exact hq'
    · intro hf
      have hp' : (s.clientAt p).nickname ≠ [] := by
        rw [Ne, ← caseFold_eq_nil, hf, caseFold_eq_nil]
        exact hne
      have hq'' := h.holder p hlive hp'
      rw [ExtTreeMap.getElem?_congr ((ircCmp_eq_iff _ _).2 hf), hq'] at hq''
      exact hpq (Option.some.inj hq'').symm
  · refine h.named n ?_
    have : n ∈ s.client.nicknameToClient.erase (s.clientAt p).nickname := by
      simpa [hs', hreg] using hn
    exact ExtTreeMap.mem_of_mem_erase this

theorem removeClient (h : Nicks s) (hl : Links s) (hpop : Populated s) (fd : Fd) :
    Nicks (s.removeClient fd) := by
  rcases hp : s.client.fdToClient[fd]? with _ | p
  · rw [ServerState.removeClient_unknown hp]
    exact h
  · obtain ⟨-, -, hsame, -, -⟩ := ServerState.detached_spec hl hpop p
    rw [ServerState.removeClient_eq hp]
    exact (h.sameClients hsame).erase (by rw [hsame.fds]; exact hp)
      ((hsame.live p).2 (hl.fdOwner fd p hp).1)

end Nicks

namespace ServerState

/-- The state after a client took a nick that nobody else holds. -/
def renamed (s : ServerState) (p : Addr) (newNick : Str) : ServerState :=
  { s with client := { s.client with
    nicknameToClient :=
      (if (s.clientAt p).nickname = [] then s.client.nicknameToClient
        else s.client.nicknameToClient.erase (s.clientAt p).nickname).insertIfNew newNick p
    objects := s.client.objects.modify p (·.setNick newNick) } }

/-- The map as the rename finds it once the old nick is erased. -/
def erasedNicks (s : ServerState) (p : Addr) : IrcMap Addr :=
  if (s.clientAt p).nickname = [] then s.client.nicknameToClient
  else s.client.nicknameToClient.erase (s.clientAt p).nickname

theorem getKey?_erasedNicks {s : ServerState} {p q : Addr} {n : Str}
    (hq : (s.erasedNicks p)[n]? = some q) :
    (s.erasedNicks p).getKey? n = s.client.nicknameToClient.getKey? n := by
  unfold erasedNicks at hq ⊢
  split_ifs at hq ⊢
  · rfl
  · rw [ExtTreeMap.getElem?_erase] at hq
    rw [ExtTreeMap.getKey?_erase]
    split_ifs at hq ⊢
    rfl

theorem updateNick_cases (s : ServerState) (p : Addr) (newNick : Str) :
    ((s.clientAt p).nickname = newNick ∧ s.updateNick p newNick = (true, s)) ∨
    (∃ q, s.client.nicknameToClient[newNick]? = some q ∧ q ≠ p ∧
      s.updateNick p newNick = (false, s)) ∨
    ((s.clientAt p).nickname ≠ newNick ∧
      (∀ q, s.client.nicknameToClient[newNick]? = some q → q = p) ∧
      s.updateNick p newNick = (true, s.renamed p newNick)) := by
  by_cases ho : (s.clientAt p).nickname = newNick
  · refine .inl ⟨ho, ?_⟩
    have : (s.client.deref p).nickname = newNick := ho
    simp [updateNick, ClientRegistry.updateNick, this]
  · have ho' : ¬ (s.client.deref p).nickname = newNick := ho
    rcases hn : s.client.nicknameToClient[newNick]? with _ | q
    · refine .inr (.inr ⟨ho, by simp, ?_⟩)
      simp [updateNick, ClientRegistry.updateNick, ho', hn, renamed, clientAt]
      congr
    · by_cases hq : q = p
      · refine .inr (.inr ⟨ho, by simp [hq], ?_⟩)
        simp [updateNick, ClientRegistry.updateNick, ho', hn, hq, renamed, clientAt]
        congr
      · refine .inr (.inl ⟨q, rfl, hq, ?_⟩)
        simp [updateNick, ClientRegistry.updateNick, ho', hn, hq]

@[simp] theorem clientAt_renamed (s : ServerState) (p q : Addr) (newNick : Str) :
    (s.renamed p newNick).clientAt q =
      if p = q ∧ q ∈ s.client.objects then (s.clientAt q).setNick newNick else s.clientAt q := by
  simp [renamed, clientAt, ClientRegistry.deref]

@[simp] theorem mem_renamed (s : ServerState) (p q : Addr) (newNick : Str) :
    q ∈ (s.renamed p newNick).client.objects ↔ q ∈ s.client.objects := by
  simp [renamed]

end ServerState

variable {s : ServerState} {p : Addr} {newNick : Str}

theorem Links.renamed (h : Links s) : Links (s.renamed p newNick) := by
  refine h.inPlace rfl rfl (by simp) (fun _ => Iff.rfl) (fun q => ?_) (fun _ => rfl)
    (fun q b => ?_) h.invitedLive
  · rw [ServerState.clientAt_renamed]
    split_ifs <;> rfl
  · rw [ServerState.clientAt_renamed]
    split_ifs <;> exact h.linked q b

namespace Nicks

/-- The entry a rename erases is the client's own, and nothing else. -/
theorem erased_iff (h : Nicks s) (hp : p ∈ s.client.objects) (n : Str) (q : Addr) :
    (s.erasedNicks p)[n]? = some q ↔ s.client.nicknameToClient[n]? = some q ∧ q ≠ p := by
  have hown : s.client.nicknameToClient[n]? = some p →
      (s.clientAt p).nickname ≠ [] ∧ caseFold (s.clientAt p).nickname = caseFold n := by
    intro hn
    have hf := (h.owner n p hn).2.1
    have hne : n ≠ [] := h.named n (by rw [ExtTreeMap.mem_iff_isSome_getElem?, hn]; rfl)
    refine ⟨?_, hf⟩
    rw [Ne, ← caseFold_eq_nil, hf, caseFold_eq_nil]
    exact hne
  unfold ServerState.erasedNicks
  split_ifs with ho
  · exact ⟨fun hq => ⟨hq, by rintro rfl; exact (hown hq).1 ho⟩, And.left⟩
  · rw [ExtTreeMap.getElem?_erase]
    simp only [ircCmp_eq_iff]
    split_ifs with hf
    · refine iff_of_false (by simp) ?_
      rintro ⟨hq, hqp⟩
      apply hqp
      have hp' := h.holder p hp ho
      rw [ExtTreeMap.getElem?_congr ((ircCmp_eq_iff _ _).2 hf), hq] at hp'
      exact Option.some.inj hp'
    · exact ⟨fun hq => ⟨hq, by rintro rfl; exact hf (hown hq).2⟩, And.left⟩

theorem not_mem_erasedNicks (h : Nicks s) (hp : p ∈ s.client.objects)
    (hfree : ∀ q, s.client.nicknameToClient[newNick]? = some q → q = p) :
    newNick ∉ s.erasedNicks p := by
  rw [ExtTreeMap.mem_iff_isSome_getElem?]
  rcases hn : (s.erasedNicks p)[newNick]? with _ | q
  · simp
  · obtain ⟨hq, hqp⟩ := (h.erased_iff hp newNick q).1 hn
    exact absurd (hfree q hq) hqp

theorem renamed (h : Nicks s) (hp : p ∈ s.client.objects) (hnew : newNick ≠ [])
    (hfree : ∀ q, s.client.nicknameToClient[newNick]? = some q → q = p) :
    Nicks (s.renamed p newNick) := by
  have herased := h.erased_iff hp
  have hgone := h.not_mem_erasedNicks hp hfree
  have hmap : (s.renamed p newNick).client.nicknameToClient =
      (s.erasedNicks p).insertIfNew newNick p := rfl
  have hkey : ∀ n, (s.renamed p newNick).client.nicknameToClient[n]? =
      if caseFold newNick = caseFold n then some p else (s.erasedNicks p)[n]? := by
    intro n
    simp [hmap, ExtTreeMap.getElem?_insertIfNew, hgone]
  refine ⟨fun n q hq => ?_, fun q hq hne => ?_, fun n hn => ?_⟩
  · rw [hkey] at hq
    split_ifs at hq with hf
    · cases hq
      refine ⟨by simpa using hp, ?_, ?_⟩
      · simp [hp, Client.setNick, hf]
      · simp [hmap, ExtTreeMap.getKey?_insertIfNew, hf, hgone, hp, Client.setNick]
    · obtain ⟨hq', hqp⟩ := (herased n q).1 hq
      obtain ⟨h1, h2, h3⟩ := h.owner n q hq'
      simp only [ServerState.mem_renamed, ServerState.clientAt_renamed, hqp.symm, false_and,
        if_false]
      refine ⟨h1, h2, ?_⟩
      rw [hmap, ExtTreeMap.getKey?_insertIfNew]
      simp only [ircCmp_eq_iff, hf, false_and, if_false]
      rw [ServerState.getKey?_erasedNicks hq, h3]
  · rw [ServerState.mem_renamed] at hq
    rw [ServerState.clientAt_renamed] at hne ⊢
    rw [hkey]
    split_ifs at hne ⊢ with hpq hf hf
    · rw [hpq.1]
    · exact absurd rfl hf
    · have hpq' : p ≠ q := fun he => hpq ⟨he, hq⟩
      have hq' := h.holder q hq hne
      rw [← ExtTreeMap.getElem?_congr ((ircCmp_eq_iff _ _).2 hf)] at hq'
      exact absurd (hfree q hq').symm hpq'
    · exact (herased _ q).2 ⟨h.holder q hq hne, fun he => hpq ⟨he.symm, hq⟩⟩
  · rw [hmap] at hn
    rcases (ExtTreeMap.mem_insertIfNew.1 hn) with hf | hn
    · rw [ircCmp_eq_iff] at hf
      rw [Ne, ← caseFold_eq_nil, ← hf, caseFold_eq_nil]
      exact hnew
    · have hq := ExtTreeMap.getElem?_eq_some_getElem hn
      refine h.named n ?_
      rw [ExtTreeMap.mem_iff_isSome_getElem?, ((herased n _).1 hq).1]
      rfl

theorem updateNick (h : Nicks s) (hp : p ∈ s.client.objects) (hnew : newNick ≠ []) :
    Nicks (s.updateNick p newNick).2 := by
  rcases s.updateNick_cases p newNick with ⟨-, hs⟩ | ⟨q, -, -, hs⟩ | ⟨-, hfree, hs⟩ <;> rw [hs]
  · exact h
  · exact h
  · exact h.renamed hp hnew hfree

end Nicks

end Ircserv
