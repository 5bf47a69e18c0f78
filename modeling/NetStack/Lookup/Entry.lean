import NetStack.Types

/-! Routing entries and bit walks, shared by the two lookup programs.

Both programs walk an address from its most significant bit with a
`prefix_bit` that starts at `0x80000000` and is shifted right once per level,
and both cut networks with `get_mask`. The lemmas here read the two as what they
are: bit `k` of the word, and its first `k` bits. -/
namespace NetStack.Lookup

/-- `RouterEntry`. -/
structure RouterEntry where
  net : U32
  prefixLen : Nat
  port : Int
deriving DecidableEq, Repr

/-- `0x80000000`, the first `prefix_bit` and the first `mask`. -/
def topBit : U32 := 0x80000000#32

/-- `get_mask`: an arithmetic shift of `0x80000000` by `prefix_len - 1`. For
length 0 the C shift count is -1, which the hardware takes modulo 32. -/
def getMask (prefixLen : Nat) : U32 := topBit.sshiftRight ((prefixLen + 31) % 32)

/-- The test both programs branch on. -/
def bitClear (net prefixBit : U32) : Bool := net &&& prefixBit == 0

/-! ### Paths -/

/-- The bits of a word, most significant first. -/
def bits (net : U32) : List Bool := (List.range 32).map net.getMsbD

/-- The path an entry's prefix spells in a trie. -/
def RouterEntry.path (e : RouterEntry) : List Bool := (bits e.net).take e.prefixLen

@[simp] theorem length_bits (net : U32) : (bits net).length = 32 := by simp [bits]

theorem getElem?_bits (net : U32) (k : Nat) (hk : k < 32) : (bits net)[k]? = some (net.getMsbD k) := by
  simp [bits, hk]

/-- A shifted `prefix_bit` is a power of two. -/
theorem prefixBit_eq : ∀ k < 32, topBit >>> k = BitVec.twoPow 32 (31 - k) ∧
    BitVec.twoPow 32 (31 - k) ≠ 0#32 := by
  decide

theorem bitClear_eq (net : U32) (k : Nat) (hk : k < 32) :
    bitClear net (topBit >>> k) = !net.getMsbD k := by
  obtain ⟨hbit, hne⟩ := prefixBit_eq k hk
  have hidx : 32 - 1 - k = 31 - k := by omega
  rw [bitClear, hbit, BitVec.and_twoPow, BitVec.getMsbD_eq_getLsbD, hidx]
  cases net.getLsbD (31 - k) <;> simp [hk, hne]

theorem drop_bits (net : U32) (k : Nat) (hk : k < 32) :
    (bits net).drop k = net.getMsbD k :: (bits net).drop (k + 1) := by
  have hlt : k < (bits net).length := by simpa using hk
  rw [List.drop_eq_getElem_cons hlt]
  congr 1
  have := getElem?_bits net k hk
  rw [List.getElem?_eq_getElem hlt] at this
  simpa using this

theorem length_path (e : RouterEntry) (hlen : e.prefixLen ≤ 32) : e.path.length = e.prefixLen := by
  simp [RouterEntry.path, hlen]

theorem drop_path (e : RouterEntry) (hlen : e.prefixLen ≤ 32) (k : Nat) (hk : k < e.prefixLen) :
    e.path.drop k = e.net.getMsbD k :: e.path.drop (k + 1) := by
  unfold RouterEntry.path
  rw [List.drop_take, drop_bits e.net k (by omega), List.drop_take]
  obtain ⟨m, hm⟩ : ∃ m, e.prefixLen - k = m + 1 := ⟨e.prefixLen - k - 1, by omega⟩
  have hm' : e.prefixLen - (k + 1) = m := by omega
  rw [hm, hm', List.take_succ_cons]

theorem take_path (e : RouterEntry) (hlen : e.prefixLen ≤ 32) (k : Nat) (hk : k < e.prefixLen) :
    e.path.take (k + 1) = e.path.take k ++ [e.net.getMsbD k] := by
  rw [List.take_add_one]
  congr 1
  have hdrop := drop_path e hlen k hk
  have hhead : e.path[k]? = (e.path.drop k)[0]? := by simp
  rw [hhead, hdrop]
  rfl

end NetStack.Lookup
