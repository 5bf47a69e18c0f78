import NetStack.Tcp.Bookkeeping
import NetStack.Tcp.Stack

/-! Reference counts and the tables they count (`tcp_hash`, `tcp_unhash`, `tcp_bind_hash`,
`tcp_bind_unhash`, `free_tcp_sock`).

A socket is linked in a table when a bucket's links lead through its node and back. What
the counter is for is `Counted`: it counts the tables the socket is linked in, the socket
is released once it is in none, and a closed socket is in neither of the lookup tables.
`Inv` says it with all that the calls rely on. A call works on one socket, link by link;
`Around` is the invariant of the others meanwhile, and each part of a call that leaves its
own socket in order again, or releases it, ends in `Inv`. -/
namespace NetStack.Tcp.Stack
open LinkedList (WellFormed)

/-! ### Being linked in a table -/

def InBind (s : Stack) (id : Nat) : Prop := ∃ b, LinkedList.Linked s.bindHashList b id

def InListen (s : Stack) (id : Nat) : Prop := ∃ b, LinkedList.Linked s.hashList (.listen b) id

def InEstablished (s : Stack) (id : Nat) : Prop := ∃ b, LinkedList.Linked s.hashList (.established b) id

/-- In one of the tables that lookups go through. -/
def Hashed (s : Stack) (id : Nat) : Prop := ∃ t, LinkedList.Linked s.hashList t id

open Classical in
/-- The number of tables the socket is linked in. -/
noncomputable def links (s : Stack) (id : Nat) : Int :=
  (if s.InBind id then 1 else 0) + (if s.InListen id then 1 else 0) + if s.InEstablished id then 1 else 0

/-- A node of the socket has been linked, or copied from one that was; a fresh socket's
are zero. -/
def Used (s : Stack) (id : Nat) : Prop :=
  (s.hashList (.entry id)).next ≠ none ∨ (s.bindHashList (.entry id)).next ≠ none

/-- What the counter is for. -/
structure Counted (s : Stack) : Prop where
  refs : ∀ id tsk, s.sock id = some tsk → tsk.refCnt = s.links id
  freed : ∀ id < s.socks.length, s.Used id →
    (id ∈ s.freed ↔ ¬ s.InBind id ∧ ¬ s.InListen id ∧ ¬ s.InEstablished id)
  closed : ∀ id tsk, s.sock id = some tsk → tsk.state = .closed →
    ¬ s.InListen id ∧ ¬ s.InEstablished id

section
variable {s s' : Stack} {id : Nat}

theorem hashed_iff : s.Hashed id ↔ s.InListen id ∨ s.InEstablished id := by
  constructor
  · intro h
    obtain ⟨t, ht⟩ := h
    cases t with
    | established b => exact .inr ⟨b, ht⟩
    | listen b => exact .inl ⟨b, ht⟩
  · intro hyp
    rcases hyp with ⟨b, hb⟩ | ⟨b, hb⟩
    · exact ⟨_, hb⟩
    · exact ⟨_, hb⟩

theorem not_hashed_iff : ¬ s.Hashed id ↔ ¬ s.InListen id ∧ ¬ s.InEstablished id := by
  rw [hashed_iff, not_or]

open Classical in
/-- One node cannot be in both lookup tables, however corrupt they are. -/
theorem links_eq (s : Stack) (id : Nat) : s.links id = (if s.InBind id then 1 else 0) + if s.Hashed id then 1 else 0 := by
  have hone : ¬ (s.InListen id ∧ s.InEstablished id) := by
    intro h
    obtain ⟨⟨b, hb⟩, c, hc⟩ := h
    cases hb.head_unique hc
  unfold links
  by_cases hl : s.InListen id <;> by_cases he : s.InEstablished id <;> simp_all [hashed_iff]

theorem links_congr (hbind : s'.InBind id ↔ s.InBind id) (hhash : s'.Hashed id ↔ s.Hashed id) :
    s'.links id = s.links id := by
  classical
  rw [links_eq, links_eq]
  simp only [hbind, hhash]

/-- One more lookup table, -/
theorem links_hashed (hbind : s'.InBind id ↔ s.InBind id) (hoff : ¬ s.Hashed id) (hon : s'.Hashed id) :
    s'.links id = s.links id + 1 := by
  classical
  rw [links_eq, links_eq, if_pos hon, if_neg hoff]
  simp only [hbind, add_zero]

/-- or the bind table. -/
theorem links_bound (hhash : s'.Hashed id ↔ s.Hashed id) (hoff : ¬ s.InBind id) (hon : s'.InBind id) :
    s'.links id = s.links id + 1 := by
  classical
  rw [links_eq, links_eq, if_pos hon, if_neg hoff]
  simp only [hhash, zero_add, add_comm]

theorem links_le (s : Stack) (id : Nat) : s.links id ≤ 2 := by
  classical
  rw [links_eq]
  split <;> split <;> omega

theorem sock_of_mem {tsk : TcpSock} (hfreed : id ∉ s.freed) (hsock : s.socks[id]? = some tsk) :
    s.sock id = some tsk := by
  rw [sock, if_neg hfreed, hsock]

theorem sock_cases {tsk : TcpSock} (hsock : s.sock id = some tsk) :
    id ∉ s.freed ∧ s.socks[id]? = some tsk ∧ id < s.socks.length := by
  unfold sock at hsock
  split at hsock
  · cases hsock
  · exact ⟨‹_›, hsock, (List.getElem?_eq_some_iff.mp hsock).1⟩

end

/-! ### The invariant -/

/-- A live socket's counter, nodes and state agree. No socket has a parent, since no child
has been made. -/
structure Held (s : Stack) (id : Nat) (tsk : TcpSock) : Prop where
  refs : tsk.refCnt = s.links id
  used : s.Used id → s.InBind id ∨ s.Hashed id
  closed : tsk.state = .closed → ¬ s.Hashed id
  node : tsk.state ≠ .closed → s.Hashed id ∨ (s.hashList (.entry id)).next = none
  bindNode : s.InBind id ∨ (s.bindHashList (.entry id)).next = none
  parent : tsk.parent = none
  queue : tsk.acceptQueue = []

/-- The tables are lists of live sockets, and every live socket but `id` is `Held`. -/
structure Around (s : Stack) (id : Nat) : Prop where
  hash : WellFormed s.hashList
  bind : WellFormed s.bindHashList
  named : ∀ j, j ≠ id → s.InBind j ∨ s.Hashed j → j < s.socks.length ∧ j ∉ s.freed
  freed : ∀ j ∈ s.freed, j < s.socks.length
  live : ∀ j tsk, j ≠ id → s.sock j = some tsk → Held s j tsk

/-- The invariant. -/
structure Inv (s : Stack) : Prop where
  hash : WellFormed s.hashList
  bind : WellFormed s.bindHashList
  named : ∀ j, s.InBind j ∨ s.Hashed j → j < s.socks.length ∧ j ∉ s.freed
  freed : ∀ j ∈ s.freed, j < s.socks.length
  live : ∀ j tsk, s.sock j = some tsk → Held s j tsk

theorem Inv.around {s : Stack} (h : Inv s) (id : Nat) : Around s id where
  hash := h.hash
  bind := h.bind
  named := fun j _ => h.named j
  freed := h.freed
  live := fun j tsk _ => h.live j tsk

/-- The invariant, once socket `id` is in order again or released. -/
theorem Around.inv {s : Stack} {id : Nat} {tsk : TcpSock} (h : Around s id) (hsock : s.socks[id]? = some tsk)
    (hlive : id ∉ s.freed → Held s id tsk) (hfreed : id ∈ s.freed → ¬ s.InBind id ∧ ¬ s.Hashed id) :
    Inv s where
  hash := h.hash
  bind := h.bind
  named := by
    intro j hj
    by_cases hne : j = id
    · subst hne
      refine ⟨(List.getElem?_eq_some_iff.mp hsock).1, fun hmem => ?_⟩
      exact hj.elim (hfreed hmem).1 (hfreed hmem).2
    · exact h.named j hne hj
  freed := h.freed
  live := by
    intro j tsk' hj
    by_cases hne : j = id
    · subst hne
      obtain ⟨hmem, hj, -⟩ := sock_cases hj
      cases hsock.symm.trans hj
      exact hlive hmem
    · exact h.live j tsk' hne hj

theorem Inv.counted {s : Stack} (h : Inv s) : Counted s where
  refs := fun id tsk hsock => (h.live id tsk hsock).refs
  freed := by
    intro id hlt hused
    rw [← not_hashed_iff]
    constructor
    · intro hmem
      exact ⟨fun hb => (h.named id (.inl hb)).2 hmem, fun hh => (h.named id (.inr hh)).2 hmem⟩
    · intro hnone
      by_contra hmem
      have hsock := sock_of_mem hmem (List.getElem?_eq_getElem hlt)
      exact ((h.live id _ hsock).used hused).elim hnone.1 hnone.2
  closed := fun id tsk hsock hstate => not_hashed_iff.mp ((h.live id tsk hsock).closed hstate)

theorem inv_empty : Inv empty := by
  have hwf : ∀ T : Type, WellFormed (emptyTables T) := fun T => ⟨fun _ => [], fun t => ⟨⟨rfl, rfl⟩, .nil⟩⟩
  have hnode : ∀ (T : Type) (t : T) (id : Nat), ¬ LinkedList.Linked (emptyTables T) t id :=
    fun T t id h => h.next_ne_none rfl
  refine ⟨hwf _, hwf _, ?_, by simp [empty], ?_⟩
  · intro j hyp
    rcases hyp with ⟨b, hb⟩ | ⟨t, ht⟩
    · exact absurd hb (hnode _ b j)
    · exact absurd ht (hnode _ t j)
  · intro j tsk hj
    exact absurd (sock_cases hj).2.2 (Nat.not_lt_zero j)

/-! ### What the parts of a call do around its socket -/

section
variable {s s' : Stack} {id : Nat}

theorem Held.congr {tsk : TcpSock} {j : Nat} (h : Held s j tsk) (hbind : s'.InBind j ↔ s.InBind j)
    (hhash : s'.Hashed j ↔ s.Hashed j)
    (hbindNode : ¬ s.InBind j → s'.bindHashList (.entry j) = s.bindHashList (.entry j))
    (hhashNode : ¬ s.Hashed j → s'.hashList (.entry j) = s.hashList (.entry j)) : Held s' j tsk where
  refs := h.refs.trans (links_congr hbind hhash).symm
  used := by
    intro hused
    rw [hbind, hhash]
    by_cases hb : s.InBind j
    · exact .inl hb
    · by_cases hh : s.Hashed j
      · exact .inr hh
      · unfold Used at hused
        rw [hbindNode hb, hhashNode hh] at hused
        exact h.used hused
  closed := by
    rw [hhash]
    exact h.closed
  node := by
    intro hstate
    rw [hhash]
    by_cases hh : s.Hashed j
    · exact .inl hh
    · rw [hhashNode hh]
      exact h.node hstate
  bindNode := by
    rw [hbind]
    by_cases hb : s.InBind j
    · exact .inl hb
    · rw [hbindNode hb]
      exact h.bindNode
  parent := h.parent
  queue := h.queue

theorem sock_modify_ne {j : Nat} (hne : j ≠ id) (f : TcpSock → TcpSock) :
    (s.modify id f).sock j = s.sock j := by
  unfold sock modify
  simp only [List.getElem?_modify_ne f s.socks (Ne.symm hne)]

theorem Around.modify (h : Around s id) (f : TcpSock → TcpSock) : Around (s.modify id f) id where
  hash := h.hash
  bind := h.bind
  named := by
    intro j hne hj
    rw [Stack.modify, List.length_modify]
    exact h.named j hne hj
  freed := by
    rw [Stack.modify, List.length_modify]
    exact h.freed
  live := by
    intro j tsk hne hj
    rw [sock_modify_ne hne] at hj
    exact (h.live j tsk hne hj).congr .rfl .rfl (fun _ => rfl) fun _ => rfl

/-- The lookup tables change at socket `id` only. -/
theorem Around.setHash (h : Around s id) {hashList : LinkedList.Heap HashHead Nat}
    (hwf : WellFormed hashList)
    (hlinked : ∀ j, j ≠ id → ∀ t, LinkedList.Linked hashList t j ↔ LinkedList.Linked s.hashList t j)
    (hnode : ∀ j, j ≠ id → ¬ s.Hashed j → hashList (.entry j) = s.hashList (.entry j)) :
    Around { s with hashList } id := by
  have hhash : ∀ j, j ≠ id → (Hashed { s with hashList } j ↔ s.Hashed j) :=
    fun j hne => exists_congr fun t => hlinked j hne t
  refine ⟨hwf, h.bind, fun j hne hj => ?_, h.freed, fun j tsk hne hj => ?_⟩
  · exact h.named j hne (hj.imp_right (hhash j hne).mp)
  · exact (h.live j tsk hne hj).congr .rfl (hhash j hne) (fun _ => rfl) (hnode j hne)

/-- The bind table changes at socket `id` only. -/
theorem Around.setBind (h : Around s id) {bindHashList : LinkedList.Heap U8 Nat}
    (hwf : WellFormed bindHashList)
    (hlinked : ∀ j, j ≠ id → ∀ t,
      LinkedList.Linked bindHashList t j ↔ LinkedList.Linked s.bindHashList t j)
    (hnode : ∀ j, j ≠ id → ¬ s.InBind j → bindHashList (.entry j) = s.bindHashList (.entry j)) :
    Around { s with bindHashList } id := by
  have hbind : ∀ j, j ≠ id → (InBind { s with bindHashList } j ↔ s.InBind j) :=
    fun j hne => exists_congr fun t => hlinked j hne t
  refine ⟨h.hash, hwf, fun j hne hj => ?_, h.freed, fun j tsk hne hj => ?_⟩
  · exact h.named j hne (hj.imp_left (hbind j hne).mp)
  · exact (h.live j tsk hne hj).congr (hbind j hne) .rfl (hnode j hne) fun _ => rfl

variable {tsk : TcpSock}

theorem socks_modify (hsock : s.socks[id]? = some tsk) (f : TcpSock → TcpSock) :
    (s.modify id f).socks[id]? = some (f tsk) := by
  unfold Stack.modify
  rw [List.getElem?_modify_eq, hsock]
  rfl

theorem freeTcpSock_eq (hsock : s.socks[id]? = some tsk) :
    s.freeTcpSock id = { s.modify id (Host.recount (· - 1)) with
      freed := if tsk.refCnt - 1 ≤ 0 then id :: s.freed else s.freed } := by
  unfold freeTcpSock
  simp only [socks_modify hsock]
  by_cases hzero : tsk.refCnt - 1 ≤ 0
  · rw [if_pos hzero]
    simp only [Host.recount, hzero, if_true]
    rfl
  · rw [if_neg hzero]
    simp only [Host.recount, hzero, if_false]
    rfl

theorem Around.release (h : Around s id) (hid : id < s.socks.length) :
    Around { s with freed := id :: s.freed } id where
  hash := h.hash
  bind := h.bind
  named := fun j hne hj => ⟨(h.named j hne hj).1, by simp [hne, (h.named j hne hj).2]⟩
  freed := by
    intro j hj
    cases List.mem_cons.mp hj with
    | inl heq => exact heq ▸ hid
    | inr hj => exact h.freed j hj
  live := by
    intro j tsk hne hj
    have hj : s.sock j = some tsk := by
      unfold sock at hj ⊢
      simpa [hne] using hj
    exact (h.live j tsk hne hj).congr .rfl .rfl (fun _ => rfl) fun _ => rfl

/-- `free_tcp_sock` after the socket has been taken off a list: it stays while it is bound,
and is released when it was on no other. -/
theorem Around.freeTcpSock (h : Around s id) (hsock : s.socks[id]? = some tsk) (hlive : id ∉ s.freed)
    (hrefs : tsk.refCnt = s.links id + 1) (hstate : tsk.state = .closed) (hhash : ¬ s.Hashed id)
    (hparent : tsk.parent = none) (hqueue : tsk.acceptQueue = []) : Inv (s.freeTcpSock id) := by
  classical
  have hlt := (List.getElem?_eq_some_iff.mp hsock).1
  have hcount := links_eq s id
  rw [if_neg hhash] at hcount
  rw [freeTcpSock_eq hsock]
  have hsock' := socks_modify hsock (Host.recount (· - 1))
  by_cases hb : s.InBind id
  · rw [if_pos hb] at hcount
    rw [if_neg (by omega)]
    refine (h.modify (Host.recount (· - 1))).inv hsock' (fun _ => ?_) fun hmem => absurd hmem hlive
    refine ⟨?_, fun _ => .inl hb, fun _ => hhash, fun hopen => absurd hstate hopen, .inl hb, hparent, hqueue⟩
    show tsk.refCnt - 1 = s.links id
    omega
  · rw [if_neg hb] at hcount
    rw [if_pos (by omega)]
    refine ((h.modify (Host.recount (· - 1))).release ?_).inv hsock' ?_ fun _ => ⟨hb, hhash⟩
    · rw [Stack.modify, List.length_modify]
      exact hlt
    · exact fun hmem => absurd List.mem_cons_self hmem

/-- `tcp_unhash` returns for a linked node only: of one that has never been linked,
`list_delete_entry` follows a null pointer. -/
theorem unhash_cases (hnode : s.Hashed id ∨ (s.hashList (.entry id)).next = none)
    (hrun : s.unhash id = some s') :
    ∃ t hashList, LinkedList.Linked s.hashList t id ∧ s.hashList.deleteEntry (.entry id) = some hashList ∧
      s' = Stack.freeTcpSock { s with hashList } id := by
  unfold Stack.unhash at hrun
  cases hnode with
  | inr hzero => simp [LinkedList.Heap.isEmpty, LinkedList.Heap.deleteEntry, hzero] at hrun
  | inl hhash =>
    obtain ⟨t, ht⟩ := hhash
    rw [if_neg (by simp [ht.isEmpty])] at hrun
    split at hrun
    · cases hrun
    · exact ⟨t, _, ht, ‹_›, (Option.some.inj hrun).symm⟩

theorem bindUnhash_cases (hnode : s.InBind id ∨ (s.bindHashList (.entry id)).next = none)
    (hrun : s.bindUnhash id = some s') :
    ∃ b bindHashList, LinkedList.Linked s.bindHashList b id ∧
      s.bindHashList.deleteEntry (.entry id) = some bindHashList ∧
      s' = Stack.freeTcpSock { s with bindHashList } id := by
  unfold Stack.bindUnhash at hrun
  cases hnode with
  | inr hzero => simp [LinkedList.Heap.isEmpty, LinkedList.Heap.deleteEntry, hzero] at hrun
  | inl hbound =>
    obtain ⟨b, hb⟩ := hbound
    rw [if_neg (by simp [hb.isEmpty])] at hrun
    split at hrun
    · cases hrun
    · exact ⟨b, _, hb, ‹_›, (Option.some.inj hrun).symm⟩

/-- `tcp_unhash` of a socket that has been closed. -/
theorem Around.unhash (h : Around s id) (hsock : s.socks[id]? = some tsk) (hlive : id ∉ s.freed)
    (hrefs : tsk.refCnt = s.links id) (hstate : tsk.state = .closed)
    (hnode : s.Hashed id ∨ (s.hashList (.entry id)).next = none)
    (hparent : tsk.parent = none) (hqueue : tsk.acceptQueue = []) (hrun : s.unhash id = some s') :
    Inv s' := by
  obtain ⟨t, hashList, ht, hdelete, rfl⟩ := unhash_cases hnode hrun
  obtain ⟨hwf, hlinked, hnodes⟩ := h.hash.deleteEntry ht hdelete
  have haround : Around { s with hashList } id := by
    refine h.setHash hwf (fun j hne u => ?_) fun j _ hj => hnodes j fun u hu => hj ⟨u, hu⟩
    rw [hlinked, and_iff_left hne]
  have hoff : ¬ Hashed { s with hashList } id := by
    intro hyp
    obtain ⟨u, hu⟩ := hyp
    exact ((hlinked u id).mp hu).2 rfl
  have hon : s.Hashed id := ⟨t, ht⟩
  have hbind : s.InBind id ↔ InBind { s with hashList } id := .rfl
  have hlinks := hrefs.trans (links_hashed hbind hoff hon)
  exact haround.freeTcpSock hsock hlive hlinks hstate hoff hparent hqueue

/-- `tcp_bind_unhash` of a closed socket that is in neither lookup table. -/
theorem Around.bindUnhash (h : Around s id) (hsock : s.socks[id]? = some tsk) (hlive : id ∉ s.freed)
    (hrefs : tsk.refCnt = s.links id) (hstate : tsk.state = .closed) (hhash : ¬ s.Hashed id)
    (hnode : s.InBind id ∨ (s.bindHashList (.entry id)).next = none)
    (hparent : tsk.parent = none) (hqueue : tsk.acceptQueue = []) (hrun : s.bindUnhash id = some s') :
    Inv s' := by
  obtain ⟨b, bindHashList, hb, hdelete, rfl⟩ := bindUnhash_cases hnode hrun
  obtain ⟨hwf, hlinked, hnodes⟩ := h.bind.deleteEntry hb hdelete
  have haround : Around { s with bindHashList } id := by
    refine h.setBind hwf (fun j hne u => ?_) fun j _ hj => hnodes j fun u hu => hj ⟨u, hu⟩
    rw [hlinked, and_iff_left hne]
  have hoff : ¬ InBind { s with bindHashList } id := by
    intro hyp
    obtain ⟨u, hu⟩ := hyp
    exact ((hlinked u id).mp hu).2 rfl
  have hon : s.InBind id := ⟨b, hb⟩
  have hhashed : s.Hashed id ↔ Hashed { s with bindHashList } id := .rfl
  have hlinks := hrefs.trans (links_bound hhashed hoff hon)
  exact haround.freeTcpSock hsock hlive hlinks hstate hhash hparent hqueue

/-- `tcp_hash` of a socket that its node can be linked for. -/
theorem Around.linkHash (h : Around s id) (hsock : s.socks[id]? = some tsk) (hlive : id ∉ s.freed)
    (hrefs : tsk.refCnt = s.links id) (hstate : tsk.state ≠ .closed) (hhash : ¬ s.Hashed id)
    (hnode : s.InBind id ∨ (s.bindHashList (.entry id)).next = none)
    (hparent : tsk.parent = none) (hqueue : tsk.acceptQueue = []) {t : HashHead}
    (hrun : s.linkHash id t = some s') : Inv s' := by
  unfold Stack.linkHash at hrun
  split at hrun
  · cases hrun
  · rename_i hashList hadd
    obtain rfl := Option.some.inj hrun
    obtain ⟨hwf, hlinked, hnodes⟩ := h.hash.addHead (fun u hu => hhash ⟨u, hu⟩) hadd
    have haround : Around { s with hashList } id := by
      refine h.setHash hwf (fun j hne u => ?_) fun j hne hj => hnodes j hne fun u hu => hj ⟨u, hu⟩
      rw [hlinked]
      simp [hne]
    have hon : Hashed { s with hashList } id := ⟨t, (hlinked t id).mpr (.inr ⟨rfl, rfl⟩)⟩
    have hsock' := socks_modify (s := { s with hashList }) hsock (Host.recount (· + 1))
    refine (haround.modify (Host.recount (· + 1))).inv hsock' (fun _ => ?_) fun hmem => absurd hmem hlive
    refine ⟨?_, fun _ => .inr hon, fun hclosed => absurd hclosed hstate, fun _ => .inl hon, hnode,
      hparent, hqueue⟩
    have hbind : InBind { s with hashList } id ↔ s.InBind id := .rfl
    show tsk.refCnt + 1 = links { s with hashList } id
    rw [links_hashed hbind hhash hon, hrefs]

/-- `tcp_bind_hash` of a socket that is not bound. -/
theorem Around.bindHash (h : Around s id) (hsock : s.socks[id]? = some tsk) (hlive : id ∉ s.freed)
    (hrefs : tsk.refCnt = s.links id) (hbind : ¬ s.InBind id)
    (hclosed : tsk.state = .closed → ¬ s.Hashed id)
    (hnode : tsk.state ≠ .closed → s.Hashed id ∨ (s.hashList (.entry id)).next = none)
    (hparent : tsk.parent = none) (hqueue : tsk.acceptQueue = []) {port : U16}
    (hrun : s.bindHash id port = some s') : Inv s' := by
  unfold Stack.bindHash at hrun
  split at hrun
  · cases hrun
  · rename_i bindHashList hadd
    obtain rfl := Option.some.inj hrun
    obtain ⟨hwf, hlinked, hnodes⟩ := h.bind.addHead (fun u hu => hbind ⟨u, hu⟩) hadd
    have haround : Around { s with bindHashList } id := by
      refine h.setBind hwf (fun j hne u => ?_) fun j hne hj => hnodes j hne fun u hu => hj ⟨u, hu⟩
      rw [hlinked]
      simp [hne]
    have hon : InBind { s with bindHashList } id := ⟨_, (hlinked _ id).mpr (.inr ⟨rfl, rfl⟩)⟩
    have hsock' := socks_modify (s := { s with bindHashList }) hsock (Host.recount (· + 1))
    refine (haround.modify (Host.recount (· + 1))).inv hsock' (fun _ => ?_) fun hmem => absurd hmem hlive
    refine ⟨?_, fun _ => .inl hon, hclosed, hnode, .inl hon, hparent, hqueue⟩
    have hhash : Hashed { s with bindHashList } id ↔ s.Hashed id := .rfl
    show tsk.refCnt + 1 = links { s with bindHashList } id
    rw [links_bound hhash hbind hon, hrefs]

end

end NetStack.Tcp.Stack
