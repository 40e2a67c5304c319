import Ircserv.Proofs.News
import Ircserv.Proofs.Runs
import Mathlib.Data.List.Basic

/-!
# A view follows its channel

A view that is true of a channel stays true when its members change, if it is told of the change
(`TrueView.change`), and the names of a 353 reply are a true view (`TrueView.names`).
-/

open Std

namespace Ircserv

open ServerState

variable {s s' : ServerState} {p q r : Addr} {n m : Str} {view : IrcMap Bool} {news : List News}

/-- What happened to the members of a channel, with the news of it. -/
inductive Change (n : Str) (s s' : ServerState) : List News → Prop
  | kept (h : ∀ r b, s'.Ranks r n b ↔ s.Ranks r n b) : Change n s s' []
  | comes {q : Addr} {m : Str} (hq : s.getClientByNick m = some q)
      (h : ∀ r b, s'.Ranks r n b ↔ s.Ranks r n b ∨ r = q ∧ b = false ∧ ¬ s.InRoom q n) :
      Change n s s' [.comes m]
  | goes {q : Addr} {m : Str} (hq : s.getClientByNick m = some q)
      (h : ∀ r b, s'.Ranks r n b ↔ s.Ranks r n b ∧ r ≠ q) : Change n s s' [.goes m]
  | marked {q : Addr} {m : Str} {v : Bool} (hq : s.getClientByNick m = some q) (hin : s.InRoom q n)
      (h : ∀ r b, s'.Ranks r n b ↔ if r = q then b = v else s.Ranks r n b) :
      Change n s s' [.marked m v]

theorem ServerState.Ranks.inRoom {b : Bool} (h : s.Ranks p n b) : s.InRoom p n := by
  obtain ⟨ch, hch, hm, -⟩ := h
  exact ⟨ch, hch, hm⟩

theorem inRoom_iff_ranks : s.InRoom p n ↔ ∃ b, s.Ranks p n b :=
  ⟨fun ⟨ch, hch, hm⟩ => ⟨_, ch, hch, hm, rfl⟩, fun ⟨_, h⟩ => h.inRoom⟩

/-- A member is found by its nick. -/
theorem Registration.getClientByNick (hr : Registration s) (hw : WellFormed s) (hp : s.InRoom p n) :
    s.getClientByNick (s.clientAt p).nickname = some p := by
  have hvalid := (hr.clients p).valid (hr.members p n hp)
  obtain ⟨ch, hch, hm⟩ := hp
  obtain ⟨a, -, rfl⟩ := room_eq_some_iff.1 hch
  exact (hw.getClientByNick_iff (isValidNickname_ne_nil hvalid)).2 ⟨hw.links.memberLive hm, rfl⟩

theorem Registration.isValidNickname (hr : Registration s) (hp : s.InRoom p n) :
    Ircserv.isValidNickname (s.clientAt p).nickname = true :=
  (hr.clients p).valid (hr.members p n hp)

/-- The members with a nick are the client that is found by it. -/
theorem Registration.nick_iff (hr : Registration s) (hw : WellFormed s) (hp : s.InRoom p n)
    (hq : s.getClientByNick m = some q) :
    caseFold (s.clientAt p).nickname = caseFold m ↔ p = q := by
  have hown := hr.getClientByNick hw hp
  constructor
  · intro hf
    have hq' : s.client.nicknameToClient[m]? = some q := hq
    rw [← ExtTreeMap.getElem?_congr ((ircCmp_eq_iff _ _).2 hf)] at hq'
    exact Option.some.inj (hown.symm.trans hq')
  · rintro rfl
    exact (hw.nicks.owner m p hq).2.1

theorem Registration.eq_of_nick (hr : Registration s) (hw : WellFormed s) (hp : s.InRoom p n)
    (hq : s.InRoom q n)
    (h : caseFold (s.clientAt p).nickname = caseFold (s.clientAt q).nickname) : p = q :=
  (hr.nick_iff hw hp (hr.getClientByNick hw hq)).1 h

theorem mem_view_iff (hr : Registration s) (hw : WellFormed s) (h : s.TrueView n view)
    (hq : s.getClientByNick m = some q) : m ∈ view ↔ s.InRoom q n := by
  rw [ExtTreeMap.mem_iff_isSome_getElem?, Option.isSome_iff_exists, inRoom_iff_ranks]
  refine exists_congr fun b => ?_
  rw [h m b]
  constructor
  · rintro ⟨r, hrank, hf⟩
    exact (hr.nick_iff hw hrank.inRoom hq).1 hf ▸ hrank
  · exact fun hrank => ⟨q, hrank, (hw.nicks.owner m q hq).2.1⟩

/-- A view stays true when it is told what changed. -/
theorem ServerState.TrueView.change (hr : Registration s) (hw : WellFormed s) (h : s.TrueView n view)
    (hnicks : ∀ r, s'.InRoom r n →
      caseFold (s'.clientAt r).nickname = caseFold (s.clientAt r).nickname)
    (hc : Change n s s' news) : s'.TrueView n (news.foldl News.apply view) := by
  intro k b
  have hsame : (∃ r, s'.Ranks r n b ∧ caseFold (s'.clientAt r).nickname = caseFold k) ↔
      ∃ r, s'.Ranks r n b ∧ caseFold (s.clientAt r).nickname = caseFold k :=
    exists_congr fun r => and_congr_right fun hrank => by rw [hnicks r hrank.inRoom]
  rw [hsame]
  cases hc with
  | kept hranks => simp only [hranks, List.foldl_nil, h k b]
  | @comes q m hq hranks =>
    have hfold := (hw.nicks.owner m q hq).2.1
    have hmem := mem_view_iff hr hw h hq
    simp only [List.foldl_cons, List.foldl_nil, News.apply, ExtTreeMap.getElem?_insertIfNew,
      ircCmp_eq_iff, hmem, hranks]
    by_cases hin : s.InRoom q n
    · simp only [hin, not_true_eq_false, and_false, if_false, or_false, h k b]
    by_cases hk : caseFold m = caseFold k
    · simp only [hk, hin, not_false_eq_true, and_self, if_true, Option.some.injEq, and_true]
      constructor
      · rintro rfl
        exact ⟨q, .inr ⟨rfl, rfl⟩, hfold.trans hk⟩
      · rintro ⟨r, hrank | ⟨-, rfl⟩, hf⟩
        · have hrq := (hr.nick_iff hw hrank.inRoom hq).1 (hf.trans hk.symm)
          exact absurd (hrq ▸ hrank.inRoom) hin
        · rfl
    · simp only [hk, false_and, if_false, h k b]
      refine exists_congr fun r => and_congr_left fun hf => (or_iff_left ?_).symm
      rintro ⟨rfl, -⟩
      exact hk (hfold.symm.trans hf)
  | @goes q m hq hranks =>
    simp only [List.foldl_cons, List.foldl_nil, News.apply, ExtTreeMap.getElem?_erase, ircCmp_eq_iff,
      hranks]
    by_cases hk : caseFold m = caseFold k
    · rw [if_pos hk]
      refine iff_of_false (by simp) ?_
      rintro ⟨r, ⟨hrank, hrq⟩, hf⟩
      exact hrq ((hr.nick_iff hw hrank.inRoom hq).1 (hf.trans hk.symm))
    · rw [if_neg hk, h k b]
      refine exists_congr fun r => and_congr_left fun hf => (and_iff_left ?_).symm
      rintro rfl
      exact hk ((hw.nicks.owner m r hq).2.1.symm.trans hf)
  | @marked q m v hq hin hranks =>
    have hfold := (hw.nicks.owner m q hq).2.1
    have hold := ExtTreeMap.getElem?_eq_some_getElem ((mem_view_iff hr hw h hq).2 hin)
    simp only [List.foldl_cons, List.foldl_nil, News.apply, ExtTreeMap.getElem?_modify, ircCmp_eq_iff,
      hranks, hold, Option.map_some]
    by_cases hk : caseFold m = caseFold k
    · rw [if_pos hk, Option.some.injEq]
      constructor
      · rintro rfl
        exact ⟨q, by rw [if_pos rfl], hfold.trans hk⟩
      · rintro ⟨r, hrank, hf⟩
        by_cases hrq : r = q
        · rw [if_pos hrq] at hrank
          exact hrank.symm
        · rw [if_neg hrq] at hrank
          exact absurd ((hr.nick_iff hw hrank.inRoom hq).1 (hf.trans hk.symm)) hrq
    · rw [if_neg hk, h k b]
      refine exists_congr fun r => and_congr_left fun hf => ?_
      rw [if_neg]
      rintro rfl
      exact hk (hfold.symm.trans hf)

section Names

/-- A member as the 353 reply lists it. -/
def listed (s : ServerState) (ch : Channel) (q : Addr) : Str :=
  (if ch.isOperator q then lit "@" else []) ++ (s.clientAt q).nickname

variable {ch : Channel} {members : List Addr}

theorem foldl_appendName : ∀ (members : List Addr) {names : Str}, names ≠ [] →
    members.foldl (ReplyBuilder.appendName s ch) names =
      [chr ' '].intercalate (names :: members.map (listed s ch))
  | [], names, _ => by simp
  | q :: members, names, hne => by
    have hname : ReplyBuilder.appendName s ch names q = names ++ [chr ' '] ++ listed s ch q := by
      unfold ReplyBuilder.appendName listed
      dsimp only
      rw [if_neg hne, show lit " " = [chr ' '] from rfl]
      split_ifs <;> simp
    rw [List.foldl_cons, hname, foldl_appendName members (by simp), List.map_cons,
      List.intercalate_cons_cons]
    rcases members with _ | ⟨r, members⟩
    · simp
    · simp [List.intercalate_cons_cons]

/-- The names of a 353 reply, each read back. -/
theorem splitOn_names (hne : members ≠ [])
    (hnick : ∀ q ∈ members, isValidNickname (s.clientAt q).nickname = true) :
    (members.foldl (ReplyBuilder.appendName s ch) []).splitOn (chr ' ') =
      members.map (listed s ch) := by
  have htoken : ∀ q ∈ members, chr ' ' ∉ listed s ch q ∧ listed s ch q ≠ [] := by
    intro q hq
    obtain ⟨hne, hspace, -⟩ := Parser.isToken_of_nick (hnick q hq)
    unfold listed
    split_ifs
    · exact ⟨by simp +decide [hspace], by simp [hne]⟩
    · exact ⟨by simpa using hspace, by simpa using hne⟩
  rcases members with _ | ⟨q, members⟩
  · exact absurd rfl hne
  · have hfirst : ReplyBuilder.appendName s ch [] q = listed s ch q := by
      unfold ReplyBuilder.appendName listed
      dsimp only
      split_ifs <;> simp_all
    rw [List.foldl_cons, hfirst, foldl_appendName members (htoken q List.mem_cons_self).2,
      ← List.map_cons, List.splitOn_intercalate]
    · rintro l hl
      obtain ⟨r, hr, rfl⟩ := List.mem_map.1 hl
      exact (htoken r hr).1
    · simp

theorem listName_listed (hnick : isValidNickname (s.clientAt q).nickname = true) (view : IrcMap Bool) :
    listName view (listed s ch q) = view.insert (s.clientAt q).nickname (ch.isOperator q) := by
  unfold listed
  cases hop : ch.isOperator q
  · rcases hn : (s.clientAt q).nickname with _ | ⟨c, nick⟩
    · rw [hn] at hnick
      cases hnick
    · have hc : c ≠ chr '@' := by
        rintro rfl
        exact absurd (isNicknameChar_of_mem hnick (hn ▸ List.mem_cons_self)) (by decide)
      simp [listName, hc]
  · simp [listName, lit]

/-- The entries are put in one by one, and no two have one nick. -/
theorem foldl_insert_iff (k : Str) (b : Bool) : ∀ (members : List Addr) (view : IrcMap Bool),
    (∀ q ∈ members, ∀ r ∈ members,
      caseFold (s.clientAt q).nickname = caseFold (s.clientAt r).nickname → q = r) →
    ((members.foldl (fun view q => view.insert (s.clientAt q).nickname (ch.isOperator q)) view)[k]? =
      some b ↔ (∃ q ∈ members, caseFold (s.clientAt q).nickname = caseFold k ∧ ch.isOperator q = b) ∨
        (∀ q ∈ members, caseFold (s.clientAt q).nickname ≠ caseFold k) ∧ view[k]? = some b)
  | [], view, _ => by simp
  | q :: members, view, hinj => by
    have ih := foldl_insert_iff k b members
      (view.insert (s.clientAt q).nickname (ch.isOperator q)) fun x hx y hy =>
        hinj x (List.mem_cons_of_mem q hx) y (List.mem_cons_of_mem q hy)
    rw [List.foldl_cons, ih, ExtTreeMap.getElem?_insert]
    simp only [ircCmp_eq_iff]
    by_cases hk : caseFold (s.clientAt q).nickname = caseFold k
    · rw [if_pos hk]
      have hsame : ∀ r ∈ members, caseFold (s.clientAt r).nickname = caseFold k → r = q := by
        intro r hr hf
        exact (hinj q List.mem_cons_self r (List.mem_cons_of_mem q hr) (hk.trans hf.symm)).symm
      constructor
      · rintro (⟨r, hr, hf, hop⟩ | ⟨-, hop⟩)
        · exact .inl ⟨r, List.mem_cons_of_mem q hr, hf, hop⟩
        · exact .inl ⟨q, List.mem_cons_self, hk, Option.some.inj hop⟩
      · rintro (⟨r, hr, hf, hop⟩ | ⟨hnone, -⟩)
        · rcases List.mem_cons.1 hr with rfl | hr
          · by_cases hr : r ∈ members
            · exact .inl ⟨r, hr, hf, hop⟩
            · refine .inr ⟨fun x hx hfx => hr (hsame x hx hfx ▸ hx), by rw [hop]⟩
          · exact .inl ⟨r, hr, hf, hop⟩
        · exact absurd hk (hnone q List.mem_cons_self)
    · rw [if_neg hk]
      simp only [List.mem_cons, exists_eq_or_imp, forall_eq_or_imp, hk, false_and, false_or, ne_eq,
        not_false_eq_true, true_and]

/-- The names of a 353 reply are a true view. -/
theorem ServerState.TrueView.names (hr : Registration s) (hw : WellFormed s) (hs : SoundRooms s)
    (hch : s.room n = some ch) :
    s.TrueView n (News.apply ∅ (.names (ch.getMembers.foldl (ReplyBuilder.appendName s ch) []))) := by
  have hmem : ∀ q, q ∈ ch.getMembers ↔ q ∈ ch.members := fun q => ExtTreeMap.mem_keys
  have hin : ∀ q ∈ ch.getMembers, s.InRoom q n := fun q hq => ⟨ch, hch, (hmem q).1 hq⟩
  have hnick : ∀ q ∈ ch.getMembers, isValidNickname (s.clientAt q).nickname = true :=
    fun q hq => hr.isValidNickname (hin q hq)
  have hinj : ∀ q ∈ ch.getMembers, ∀ r ∈ ch.getMembers,
      caseFold (s.clientAt q).nickname = caseFold (s.clientAt r).nickname → q = r :=
    fun q hq r hr' => hr.eq_of_nick hw (hin q hq) (hin r hr')
  have hne : ch.getMembers ≠ [] := by
    obtain ⟨q, hq⟩ := (hs n ch hch).populated
    exact List.ne_nil_of_mem ((hmem q).2 hq)
  have hlist : (ch.getMembers.map (listed s ch)).foldl listName ∅ = ch.getMembers.foldl
      (fun view q => view.insert (s.clientAt q).nickname (ch.isOperator q)) ∅ := by
    rw [List.foldl_map]
    exact List.foldl_ext _ _ _ fun view q hq => listName_listed (hnick q hq) view
  intro k b
  rw [News.apply, splitOn_names hne hnick, hlist, foldl_insert_iff k b ch.getMembers ∅ hinj]
  simp only [ExtTreeMap.getElem?_empty, reduceCtorEq, and_false, or_false, Ranks, hch,
    Option.some.injEq, exists_eq_left', hmem]
  exact exists_congr fun q => by tauto

end Names

end Ircserv
