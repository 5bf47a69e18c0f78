import NetStack.Mospf.Lsu
import Mathlib.Combinatorics.SimpleGraph.Metric
import Mathlib.Data.List.FinRange

/-! A network of routers that have found their neighbours.

Every neighbour record is the one a hello leaves, and the router it is of has a record
back. A packet reaches the router that has an interface with its destination address. -/
namespace NetStack.Mospf

/-- The record `handle_mospf_hello` makes of a hello a router sends over an interface. -/
structure MospfNbr.Of (nbr : MospfNbr) (rid : U32) (iface : Iface) : Prop where
  nbrId : nbr.nbrId = rid
  nbrIp : nbr.nbrIp = iface.ip
  nbrMask : nbr.nbrMask = iface.mask

instance (nbr : MospfNbr) (rid : U32) (iface : Iface) : Decidable (nbr.Of rid iface) :=
  decidable_of_iff (nbr.nbrId = rid ∧ nbr.nbrIp = iface.ip ∧ nbr.nbrMask = iface.mask)
    ⟨fun ⟨hid, hip, hmask⟩ => ⟨hid, hip, hmask⟩, fun h => ⟨h.nbrId, h.nbrIp, h.nbrMask⟩⟩

/-- Routers with their ids and interfaces. -/
structure Network (n : Nat) where
  routerId : Fin n → U32
  ifaces : Fin n → List Iface
  id_injective : Function.Injective routerId
  ip_router : ∀ {v w i j}, i ∈ ifaces v → j ∈ ifaces w → i.ip = j.ip → v = w
  numNbr_eq : ∀ {v i}, i ∈ ifaces v → i.numNbr = i.nbrList.length
  nbr_symm : ∀ {v i nbr}, i ∈ ifaces v → nbr ∈ i.nbrList →
    ∃ w, v ≠ w ∧ ∃ j ∈ ifaces w, nbr.Of (routerId w) j ∧ ∃ back ∈ j.nbrList, back.Of (routerId v) i

namespace Network

variable {n : Nat} (net : Network n)

/-- Routers that are neighbours of each other. -/
def graph : SimpleGraph (Fin n) where
  Adj v w := v ≠ w ∧ ∃ i ∈ net.ifaces v, ∃ nbr ∈ i.nbrList, nbr.nbrId = net.routerId w
  symm := ⟨fun v w ⟨hne, i, hi, nbr, hnbr, hid⟩ => by
    obtain ⟨w', -, j, hj, hof, back, hback, hof'⟩ := net.nbr_symm hi hnbr
    obtain rfl := net.id_injective (hid.symm.trans hof.nbrId)
    exact ⟨hne.symm, j, hj, back, hback, hof'.nbrId⟩⟩
  loopless := ⟨fun _ ⟨hne, _⟩ => hne rfl⟩

/-- The router with this address. -/
def locate (ip : U32) : Option (Fin n) :=
  (List.finRange n).find? fun v => (net.ifaces v).any fun iface => iface.ip = ip

variable {net} {v w : Fin n} {i j : Iface} {nbr : MospfNbr}

/-- An address leads to the router it is of. -/
theorem locate_eq (hj : j ∈ net.ifaces w) : net.locate j.ip = some w := by
  cases hfind : net.locate j.ip with
  | none =>
    have := List.find?_eq_none.mp hfind w (List.mem_finRange w)
    simp only [List.any_eq_true, decide_eq_true_eq, not_exists, not_and] at this
    exact absurd rfl (this j hj)
  | some w' =>
    have hip := List.find?_some hfind
    simp only [List.any_eq_true, decide_eq_true_eq] at hip
    obtain ⟨i, hi, hip⟩ := hip
    rw [net.ip_router hi hj hip]

/-- A neighbour record leads to a neighbour. -/
theorem nbr_locate (hi : i ∈ net.ifaces v) (hnbr : nbr ∈ i.nbrList) :
    ∃ w, net.graph.Adj v w ∧ nbr.nbrId = net.routerId w ∧ net.locate nbr.nbrIp = some w := by
  obtain ⟨w, hne, j, hj, hof, -⟩ := net.nbr_symm hi hnbr
  exact ⟨w, ⟨hne, i, hi, nbr, hnbr, hof.nbrId⟩, hof.nbrId, hof.nbrIp ▸ locate_eq hj⟩

/-- A neighbour has a record that leads to it. -/
theorem adj_nbr (hadj : net.graph.Adj v w) :
    ∃ i ∈ net.ifaces v, ∃ nbr ∈ i.nbrList, nbr.nbrId = net.routerId w ∧ net.locate nbr.nbrIp = some w := by
  obtain ⟨-, i, hi, nbr, hnbr, hid⟩ := hadj
  obtain ⟨w', -, hid', hloc⟩ := nbr_locate hi hnbr
  obtain rfl := net.id_injective (hid.symm.trans hid')
  exact ⟨i, hi, nbr, hnbr, hid, hloc⟩

end Network

/-! ### The four routers of `topo.py` -/

/-- 10.0.`subnet`.`host`. -/
def labIp (subnet host : Nat) : U32 := BitVec.ofNat 32 (0x0a000000 + 256 * subnet + host)

/-- An interface of router `r`, and its neighbour if it has one. -/
def labIface (subnet r : Nat) (nbr : Option Nat) : Iface where
  ip := labIp subnet r
  mask := 0xffffff00
  numNbr := nbr.toList.length
  nbrList := nbr.toList.map fun q => ⟨labIp q q, labIp subnet q, 0xffffff00⟩

/-- r1 to r4, in a square; the hosts' networks are at r1 and r4. -/
def labIfaces : Fin 4 → List Iface
  | 0 => [labIface 1 1 none, labIface 2 1 (some 2), labIface 3 1 (some 3)]
  | 1 => [labIface 2 2 (some 1), labIface 4 2 (some 4)]
  | 2 => [labIface 3 3 (some 1), labIface 5 3 (some 4)]
  | 3 => [labIface 4 4 (some 2), labIface 5 4 (some 3), labIface 6 4 none]

def labRouterId (v : Fin 4) : U32 := labIp (v + 1) (v + 1)

def lab : Network 4 where
  routerId := labRouterId
  ifaces := labIfaces
  id_injective := by decide
  ip_router {v w i j} := by
    have h : ∀ v w, ∀ i ∈ labIfaces v, ∀ j ∈ labIfaces w, i.ip = j.ip → v = w := by decide
    exact fun hi hj => h v w i hi j hj
  numNbr_eq {v i} := by
    have h : ∀ v, ∀ i ∈ labIfaces v, i.numNbr = i.nbrList.length := by decide
    exact h v i
  nbr_symm {v i nbr} := by
    have h : ∀ v, ∀ i ∈ labIfaces v, ∀ nbr ∈ i.nbrList, ∃ w, v ≠ w ∧ ∃ j ∈ labIfaces w,
        nbr.Of (labRouterId w) j ∧ ∃ back ∈ j.nbrList, back.Of (labRouterId v) i := by decide
    exact fun hi => h v i hi nbr

theorem lab_connected : lab.graph.Connected := by
  have h01 : lab.graph.Adj 0 1 := ⟨by decide, by decide⟩
  have h02 : lab.graph.Adj 0 2 := ⟨by decide, by decide⟩
  have h13 : lab.graph.Adj 1 3 := ⟨by decide, by decide⟩
  refine SimpleGraph.connected_iff_exists_forall_reachable _ |>.mpr ⟨0, fun v => ?_⟩
  match v with
  | 0 => exact .refl 0
  | 1 => exact h01.reachable
  | 2 => exact h02.reachable
  | 3 => exact h01.reachable.trans h13.reachable

end NetStack.Mospf
