import NetStack.Tcp.ServerSide

/-! End-to-end integrity.

The bytes read are a prefix of the bytes written in every run that delivers only harmless
packets to the server (`read_prefix_written`). The two places that run `rcv_nxt = cb->seq`
make the condition necessary in kind: a handshake acknowledgement delivered again after
the first data makes the server take that data a second time (`stale_ack_repeats_data`). -/
namespace NetStack.Tcp.Conn
open Reassembly (Sits)

variable {c : Conn}

/-- In a space that starts with the SYN, what sits after it is the first of the bytes. -/
theorem prefix_of_sits {space : List (Option U8)} {data : List U8} (hfirst : space.head? = some none)
    (h : Sits (fun p => (space[p]?).join) 1 data) : data <+: space.filterMap id := by
  cases space with
  | nil => cases hfirst
  | cons x rest =>
    obtain rfl : x = none := Option.some.inj hfirst
    have hget : ∀ i (hi : i < data.length), rest[i]? = some (some data[i]) := by
      intro i hi
      have hat : ((none :: rest)[1 + i]?).join = some data[i] := h i hi
      rw [Nat.add_comm, List.getElem?_cons_succ] at hat
      exact Option.join_eq_some_iff.mp hat
    have hmap : data.map some <+: rest := by
      rw [List.prefix_iff_eq_take]
      apply List.ext_getElem?
      intro i
      by_cases hi : i < data.length
      · rw [List.getElem?_map, List.getElem?_eq_getElem hi, List.getElem?_take_of_lt (by simpa using hi),
          hget i hi]
        rfl
      · rw [List.getElem?_eq_none (by simpa using hi), List.getElem?_eq_none]
        simp only [List.length_take, List.length_map]
        omega
    obtain ⟨more, rfl⟩ := hmap
    refine ⟨more.filterMap id, ?_⟩
    simp [List.filterMap_map]

/-- Both accounts together. -/
theorem prefix_of_inv (hclient : ClientInv c) (hserver : ServerInv c) : c.read <+: c.written := by
  have hread : ∃ rest, Sits c.stream 1 (c.read ++ rest) := by
    cases hserver with
    | alone socks state root queue empty accepted read =>
      rw [read]
      exact ⟨[], Sits.nil _ _⟩
    | child socks accepting => exact ⟨_, accepting.out⟩
  obtain ⟨rest, hsits⟩ := hread
  cases hclient with
  | start thread client space emitted wire written =>
    have hnil : c.read ++ rest = [] := by
      by_contra hne
      have hlt : 0 < (c.read ++ rest).length := List.length_pos_iff.mpr hne
      have := hsits 0 hlt
      simp [stream, space] at this
    rw [(List.append_eq_nil_iff.mp hnil).1]
    exact List.nil_prefix
  | running thread socks sending written =>
    rw [← written]
    exact (List.prefix_append _ rest).trans
      ((prefix_of_sits sending.first hsits).trans (List.prefix_append _ _))

/-- **End-to-end integrity.** Whatever the network does, and however the calls interleave:
as long as every packet delivered to the server is harmless, what has been read is a
prefix of what has been written. -/
theorem read_prefix_written {sport : U16} {backlog : Int} {es : List ConnEvent}
    (hrun : Run Step (start sport backlog) es c) (horder : Along Step InOrder (start sport backlog) es) :
    c.read <+: c.written := by
  have hclient : ClientInv (start sport backlog) := .start rfl rfl rfl rfl rfl rfl
  have hserver : ServerInv (start sport backlog) := by
    refine @ServerInv.alone _
      { allocTcpSock with skSport := sport, backlog, state := .listen, refCnt := 2 }
      rfl (.inl rfl) rfl rfl ?_ rfl rfl
    exact RingBuffer.contents_alloc _
  have hinv : ClientInv c ∧ ServerInv c := by
    have hkeep : ∀ s e t, ClientInv s ∧ ServerInv s → InOrder s e → Step s e t →
        ClientInv t ∧ ServerInv t := fun s e t hs hsafe hstep =>
      ⟨hs.1.step hstep, hs.2.step hs.1 hsafe hstep⟩
    exact hrun.invariant hkeep horder ⟨hclient, hserver⟩
  exact prefix_of_inv hinv.1 hinv.2

/-- Where the client connects from and to. -/
def peer : SockAddr := ⟨10, 12345, 20, 80⟩

/-- The handshake, and one byte delivered. -/
def transfer : List ConnEvent :=
  [.connect peer, .toServer 0 0 5 [], .toClient 0 0 0, .connected, .toServer 1 0 0 [], .accept,
    .write [7], .toServer 2 0 0 []]

/-- The byte is read. -/
theorem read_prefix_written_byte :
    ∃ c, Run Step (start 80 10) (transfer ++ [.read 10]) c ∧ c.written = [7] ∧ c.read = [7] ∧
      c.read <+: c.written := by
  have hend : (runAll step (start 80 10) (transfer ++ [.read 10])).map (fun c => (c.written, c.read)) =
      some ([7], [7]) := by decide
  have hcheck : checkAll step InOrder (start 80 10) (transfer ++ [.read 10]) = true := by decide
  obtain ⟨c, hc, heq⟩ := Option.map_eq_some_iff.mp hend
  obtain ⟨hwritten, hread⟩ := Prod.mk.inj heq
  exact ⟨c, Run.of_runAll hc, hwritten, hread,
    read_prefix_written (Run.of_runAll hc) (Along.of_checkAll hcheck)⟩

/-- The acknowledgement that ended the handshake is delivered again after the byte, and
then the byte again: it is read twice. -/
theorem stale_ack_repeats_data :
    ∃ c, Run Step (start 80 10)
        (transfer ++ [.toServer 1 0 0 [], .toServer 2 0 0 [], .read 10]) c ∧
      c.written = [7] ∧ c.read = [7, 7] ∧ ¬c.read <+: c.written := by
  have hend : (runAll step (start 80 10)
      (transfer ++ [.toServer 1 0 0 [], .toServer 2 0 0 [], .read 10])).map
      (fun c => (c.written, c.read)) = some ([7], [7, 7]) := by decide
  obtain ⟨c, hc, heq⟩ := Option.map_eq_some_iff.mp hend
  obtain ⟨hwritten, hread⟩ := Prod.mk.inj heq
  refine ⟨c, Run.of_runAll hc, hwritten, hread, ?_⟩
  rw [hwritten, hread]
  decide

end NetStack.Tcp.Conn
