import NetStack.Lib.CString
import NetStack.Lib.Fallible
import NetStack.Translation.Table

/-! The configuration file (`parse_config` and below, `if_name_to_iface`, of
`EXP13-NAT/13-nat/nat.c`).

A line is taken for what the first of three words that it holds says, and is cut into tokens.
Of the name of an interface the last character is dropped, which is the end of the line, or,
where a last line has no end, belongs to the name. The word for the internal interface is looked
for first, in the whole line, name included. Every line of a configuration is read so
(`parseLine_written`), which is as it is meant but for these two. -/
namespace NetStack.Translation
open CString

/-- `MAX_LINE`. -/
def maxLine : Nat := 100

def internalIfaceDes : List Char := "internal-iface".toList
def externalIfaceDes : List Char := "external-iface".toList
def dnatRulesDes : List Char := "dnat-rules".toList

/-- What a malformed line can lead to: a null pointer is followed, or a string is left at its end. -/
inductive ParseFault where
  | null
  | outside
deriving DecidableEq, Repr

/-- `iface_info_t`, of which the configuration looks at the name. -/
structure Iface where
  name : List Char
  index : Nat
deriving DecidableEq, Repr

/-- What the configuration sets of `struct nat_table`. -/
structure Settings where
  internalIface : Option Iface
  externalIface : Option Iface
  rules : List DnatRule
deriving DecidableEq, Repr

/-- The settings as `nat_init` clears them. -/
def Settings.cleared : Settings := ⟨none, none, []⟩

/-- `if_name_to_iface`. -/
def ifNameToIface (ifaces : List Iface) (name : List Char) : Option Iface :=
  ifaces.find? fun iface => iface.name = name

/-- A token that is used without asking whether there is one. -/
def nextToken (s delims : List Char) : Except ParseFault (List Char × List Char) :=
  match strtok s delims with
  | none => .error .null
  | some token => .ok token

/-- The name of the interface in a line, as both parsers below take it. -/
def ifaceName (line : List Char) : Except ParseFault (List Char) := do
  let (_, rest) ← nextToken line [':', ' ']
  let (name, _) ← nextToken rest [' ']
  return name.dropLast

/-- `parse_internal_iface`. -/
def parseInternalIface (ifaces : List Iface) (nat : Settings) (line : List Char) : Except ParseFault Settings := do
  let name ← ifaceName line
  return { nat with internalIface := ifNameToIface ifaces name }

/-- `parse_external_iface`. -/
def parseExternalIface (ifaces : List Iface) (nat : Settings) (line : List Char) : Except ParseFault Settings := do
  let name ← ifaceName line
  return { nat with externalIface := ifNameToIface ifaces name }

/-- The loop of `net_parser`, with `time` rounds to go. -/
def netParserLoop : Nat → U32 → List Char → Except ParseFault U32
  | 0, num, s => .ok (num + BitVec.ofInt 32 (atoi s))
  | time + 1, num, s =>
    match s.dropWhile (· ≠ '.') with
    | [] => .error .outside
    | _ :: rest => netParserLoop time ((num + BitVec.ofInt 32 (atoi s)) * 256) rest

/-- `net_parser`. -/
def netParser (s : List Char) : Except ParseFault U32 := netParserLoop 3 0 s

/-- `parse_dnat_rules`, without the mapping that it makes and drops. -/
def parseDnatRules (nat : Settings) (line : List Char) : Except ParseFault Settings := do
  let (_, rest) ← nextToken line [':', ' ']
  let (ip1, rest) ← nextToken rest [' ']
  let (ip2, _) ← nextToken rest ['-', '>', ' ']
  let (ip1, rest) ← nextToken ip1 [':']
  let (port1, _) ← nextToken rest [' ']
  let (ip2, rest) ← nextToken ip2 [':']
  let (port2, _) ← nextToken rest [' ']
  let externalIp ← netParser ip1
  let internalIp ← netParser ip2
  let rule : DnatRule := ⟨externalIp, BitVec.ofInt 16 (atoi port1), internalIp, BitVec.ofInt 16 (atoi port2)⟩
  return { nat with rules := nat.rules ++ [rule] }

/-- One round of the loop of `parse_config`. -/
def parseLine (ifaces : List Iface) (nat : Settings) (line : List Char) : Except ParseFault Settings :=
  if (strstr line internalIfaceDes).isSome then
    parseInternalIface ifaces nat line
  else if (strstr line externalIfaceDes).isSome then
    parseExternalIface ifaces nat line
  else if (strstr line dnatRulesDes).isSome then
    parseDnatRules nat line
  else
    .ok nat

/-- `parse_config`, of a file that can be opened. -/
def parseConfig (ifaces : List Iface) (file : List Char) : Except ParseFault Settings :=
  (readLines (show 1 < maxLine by decide) file).foldlM (fun nat buf => parseLine ifaces nat (ofBuffer buf))
    Settings.cleared

/-! ### What is written -/

/-- The name of an interface: a character, and no blank, no colon and no end. -/
structure Name where
  chars : List Char
  ne_nil : chars ≠ []
  clean : ∀ c ∈ chars, c ∉ [' ', ':', '\n', '\x00']

/-- A number in digits, within bounds. -/
structure Numeral (low high : Nat) where
  digits : List Char
  ne_nil : digits ≠ []
  isDigit : ∀ c ∈ digits, c.isDigit = true
  le : low ≤ decimal digits ∧ decimal digits ≤ high

/-- An address in four parts, and a port. -/
structure Endpoint where
  a : Numeral 0 255
  b : Numeral 0 255
  c : Numeral 0 255
  d : Numeral 0 255
  port : Numeral 1 65535

/-- The lines of a configuration. -/
inductive Line where
  | internalIface (name : Name)
  | externalIface (name : Name)
  | dnatRules (external internal : Endpoint)

def Endpoint.dotted (e : Endpoint) : List Char :=
  e.a.digits ++ '.' :: (e.b.digits ++ '.' :: (e.c.digits ++ '.' :: e.d.digits))

def Endpoint.text (e : Endpoint) : List Char := e.dotted ++ ':' :: e.port.digits

def Line.text : Line → List Char
  | .internalIface name => internalIfaceDes ++ ':' :: ' ' :: name.chars
  | .externalIface name => externalIfaceDes ++ ':' :: ' ' :: name.chars
  | .dnatRules external internal =>
    dnatRulesDes ++ ':' :: ' ' :: (external.text ++ ' ' :: '-' :: '>' :: ' ' :: internal.text)

/-- The lines in a file, the last of them with its end or without. -/
def written (lines : List Line) (newline : Bool) : List Char :=
  let text := lines.flatMap fun line => line.text ++ ['\n']
  if newline then text else text.dropLast

/-! ### What is meant -/

def Endpoint.ip (e : Endpoint) : U32 :=
  BitVec.ofNat 32 (decimal e.a.digits * 2 ^ 24 + decimal e.b.digits * 2 ^ 16 + decimal e.c.digits * 2 ^ 8 +
    decimal e.d.digits)

/-- The parts and the port are bounded, and nothing wraps. -/
theorem Endpoint.toNat_ip (e : Endpoint) :
    e.ip.toNat = decimal e.a.digits * 2 ^ 24 + decimal e.b.digits * 2 ^ 16 + decimal e.c.digits * 2 ^ 8 +
      decimal e.d.digits := by
  have ha := e.a.le
  have hb := e.b.le
  have hc := e.c.le
  have hd := e.d.le
  rw [Endpoint.ip, BitVec.toNat_ofNat, Nat.mod_eq_of_lt (by omega)]

theorem Endpoint.toNat_port (e : Endpoint) :
    (BitVec.ofNat 16 (decimal e.port.digits)).toNat = decimal e.port.digits := by
  have hport := e.port.le
  rw [BitVec.toNat_ofNat, Nat.mod_eq_of_lt (by omega)]

/-- The name that a line gives the internal interface, and that it gives the external one. -/
def Line.internal : Line → Option (List Char)
  | .internalIface name => some name.chars
  | _ => none

def Line.external : Line → Option (List Char)
  | .externalIface name => some name.chars
  | _ => none

def Line.rule : Line → Option DnatRule
  | .dnatRules e i =>
    some ⟨e.ip, BitVec.ofNat 16 (decimal e.port.digits), i.ip, BitVec.ofNat 16 (decimal i.port.digits)⟩
  | _ => none

/-! ### One line -/

def ending (newline : Bool) : List Char := if newline then ['\n'] else []

/-- A name as it is read from a line with an end or without. -/
def Name.read (name : Name) (newline : Bool) : List Char := if newline then name.chars else name.chars.dropLast

/-- The name holds the word for the internal interface. -/
def Name.misread (name : Name) : Bool := (strstr name.chars internalIfaceDes).isSome

/-- The name that a line, with its end or without, gives the internal interface when it is read. -/
def Line.readInternal : Line × Bool → Option (List Char)
  | (.internalIface name, newline) => some (name.read newline)
  | (.externalIface name, newline) => if name.misread then some (name.read newline) else none
  | (.dnatRules .., _) => none

/-- The name that it gives the external interface. -/
def Line.readExternal : Line × Bool → Option (List Char)
  | (.externalIface name, newline) => if name.misread then none else some (name.read newline)
  | _ => none

/-- The settings after one line. -/
def Settings.read (ifaces : List Iface) (nat : Settings) (line : Line × Bool) : Settings where
  internalIface := ((Line.readInternal line).map (ifNameToIface ifaces)).getD nat.internalIface
  externalIface := ((Line.readExternal line).map (ifNameToIface ifaces)).getD nat.externalIface
  rules := nat.rules ++ line.1.rule.toList

variable {ifaces : List Iface} {lines : List Line} {newline : Bool} {s token tail delims : List Char} {c : Char}

theorem nextToken_token (hs : ∀ c ∈ s, c ∈ delims) (hne : token ≠ []) (htoken : ∀ c ∈ token, c ∉ delims)
    (htail : ∀ c ∈ tail.head?, c ∈ delims) :
    nextToken (s ++ (token ++ tail)) delims = .ok (token, tail.drop 1) := by
  rw [nextToken, strtok_token hs hne htoken htail]

/-- A token at the start, and a delimiter. -/
theorem nextToken_cut (hne : token ≠ []) (htoken : ∀ c ∈ token, c ∉ delims) (hc : c ∈ delims) (rest : List Char) :
    nextToken (token ++ c :: rest) delims = .ok (token, rest) :=
  nextToken_token (s := []) nofun hne htoken fun d hd => by cases hd; exact hc

/-- A token that is all there is, after delimiters. -/
theorem nextToken_all (hs : ∀ c ∈ s, c ∈ delims) (hne : token ≠ []) (htoken : ∀ c ∈ token, c ∉ delims) :
    nextToken (s ++ token) delims = .ok (token, []) := by
  have h : nextToken (s ++ (token ++ [])) delims = .ok (token, _) := nextToken_token hs hne htoken nofun
  rwa [List.append_nil] at h

theorem mem_ending (hc : c ∈ ending newline) : c = '\n' := by
  cases newline with
  | true => exact List.mem_singleton.mp hc
  | false => exact absurd hc List.not_mem_nil

theorem Name.clean_of (name : Name) (hdelims : ∀ c ∈ delims, c ∈ [' ', ':', '\n', '\x00']) :
    ∀ c ∈ name.chars, c ∉ delims :=
  fun c hc hmem => name.clean c hc (hdelims c hmem)

theorem dropLast_ending (name : Name) (newline : Bool) :
    (name.chars ++ ending newline).dropLast = name.read newline := by
  cases newline with
  | true => exact List.dropLast_concat
  | false => exact congrArg List.dropLast (List.append_nil _)

theorem des_clean {des : List Char} (h : des.all (· ∉ [':', ' ']) = true) : ∀ c ∈ des, c ∉ [':', ' '] :=
  fun c hc => of_decide_eq_true (List.all_eq_true.mp h c hc)

/-- The name in a line, whatever its first word. -/
theorem ifaceName_written (des : List Char) (hne : des ≠ []) (hdes : ∀ c ∈ des, c ∉ [':', ' ']) (name : Name)
    (newline : Bool) :
    ifaceName (des ++ ':' :: ' ' :: (name.chars ++ ending newline)) = .ok (name.read newline) := by
  have hfirst := nextToken_cut hne hdes (c := ':') (by decide) (' ' :: (name.chars ++ ending newline))
  have hsecond : nextToken ([' '] ++ (name.chars ++ ending newline)) [' '] =
      .ok (name.chars ++ ending newline, []) := by
    refine nextToken_all (fun c hc => hc) (List.append_ne_nil_of_left_ne_nil name.ne_nil _) fun c hc => ?_
    rcases List.mem_append.mp hc with hc | hc
    · exact name.clean_of (by simp) c hc
    · rw [mem_ending hc]
      decide
  rw [List.singleton_append] at hsecond
  rw [ifaceName, hfirst, Fallible.ok_bind]
  show (nextToken (' ' :: (name.chars ++ ending newline)) [' '] >>= _) = _
  rw [hsecond, Fallible.ok_bind, ← dropLast_ending]
  rfl

/-! ### Numbers -/

theorem digit_not_mem (hdelims : ∀ c ∈ delims, c.isDigit = false) (hc : c.isDigit = true) : c ∉ delims :=
  fun hmem => absurd hc (by rw [hdelims c hmem]; exact Bool.false_ne_true)

theorem Numeral.atoi {low high : Nat} (n : Numeral low high) (htail : ∀ c ∈ tail.head?, c.isDigit = false) :
    atoi (n.digits ++ tail) = decimal n.digits :=
  atoi_digits n.ne_nil n.isDigit htail

/-- One part of an address. -/
theorem netParserLoop_part {low high : Nat} (n : Numeral low high) (time : Nat) (num : U32) (rest : List Char) :
    netParserLoop (time + 1) num (n.digits ++ '.' :: rest) =
      netParserLoop time ((num + BitVec.ofNat 32 (decimal n.digits)) * 256) rest := by
  have hdrop : (n.digits ++ '.' :: rest).dropWhile (· ≠ '.') = '.' :: rest := by
    refine dropWhile_before (fun c hc => decide_eq_true ?_) fun c hc => by cases hc; rfl
    intro heq
    obtain rfl := heq
    exact absurd (n.isDigit _ hc) (by decide)
  rw [netParserLoop, hdrop, n.atoi fun c hc => by cases hc; rfl, BitVec.ofInt_natCast]

theorem netParser_dotted (e : Endpoint) : netParser e.dotted = .ok e.ip := by
  have hd : atoi e.d.digits = decimal e.d.digits := by
    have h : atoi (e.d.digits ++ []) = _ := e.d.atoi nofun
    rwa [List.append_nil] at h
  rw [netParser, Endpoint.dotted, netParserLoop_part, netParserLoop_part, netParserLoop_part, netParserLoop, hd,
    BitVec.ofInt_natCast, Endpoint.ip]
  refine congrArg Except.ok (BitVec.eq_of_toNat_eq ?_)
  have h0 : BitVec.toNat (0 : U32) = 0 := rfl
  have h256 : BitVec.toNat (256 : U32) = 256 := rfl
  simp only [BitVec.toNat_add, BitVec.toNat_mul, BitVec.toNat_ofNat, h0, h256]
  omega

/-! ### Rules -/

theorem mem_dotted {e : Endpoint} (hc : c ∈ e.dotted) : c.isDigit = true ∨ c = '.' := by
  simp only [Endpoint.dotted, List.mem_append, List.mem_cons] at hc
  rcases hc with h | h | h | h | h | h | h
  · exact .inl (e.a.isDigit c h)
  · exact .inr h
  · exact .inl (e.b.isDigit c h)
  · exact .inr h
  · exact .inl (e.c.isDigit c h)
  · exact .inr h
  · exact .inl (e.d.isDigit c h)

theorem mem_text {e : Endpoint} (hc : c ∈ e.text) : c.isDigit = true ∨ c ∈ ['.', ':'] := by
  rw [Endpoint.text, List.mem_append, List.mem_cons] at hc
  rcases hc with h | h | h
  · rcases mem_dotted h with h | rfl
    · exact .inl h
    · exact .inr (by decide)
  · exact .inr (by rw [h]; decide)
  · exact .inl (e.port.isDigit c h)

/-- The text of an endpoint holds no other characters. -/
theorem text_not_mem (e : Endpoint) (hdigit : ∀ c ∈ delims, c.isDigit = false) (hpoint : '.' ∉ delims)
    (hcolon : ':' ∉ delims) : ∀ c ∈ e.text, c ∉ delims := by
  intro c hc
  rcases mem_text hc with h | h
  · exact digit_not_mem hdigit h
  · rcases List.mem_cons.mp h with rfl | h
    · exact hpoint
    · rw [List.mem_singleton.mp h]
      exact hcolon

theorem dotted_ne_nil (e : Endpoint) : e.dotted ≠ [] := List.append_ne_nil_of_left_ne_nil e.a.ne_nil _

theorem text_ne_nil (e : Endpoint) : e.text ≠ [] := List.append_ne_nil_of_left_ne_nil (dotted_ne_nil e) _

/-- An endpoint, as a token that may end a line, comes apart into its address and its port. -/
theorem endpoint_tokens (e : Endpoint) (newline : Bool) :
    ∃ rest, nextToken (e.text ++ ending newline) [':'] = .ok (e.dotted, rest) ∧
      ∃ port, nextToken rest [' '] = .ok (port, []) ∧ atoi port = decimal e.port.digits := by
  refine ⟨e.port.digits ++ ending newline, ?_, e.port.digits ++ ending newline, ?_, ?_⟩
  · rw [Endpoint.text, List.append_assoc, List.cons_append]
    refine nextToken_cut (dotted_ne_nil e) (fun c hc => ?_) (by decide) _
    rcases mem_dotted hc with h | rfl
    · exact digit_not_mem (by simp) h
    · decide
  · refine nextToken_all (s := []) nofun (List.append_ne_nil_of_left_ne_nil e.port.ne_nil _) fun c hc => ?_
    rcases List.mem_append.mp hc with hc | hc
    · exact digit_not_mem (by simp) (e.port.isDigit c hc)
    · rw [mem_ending hc]
      decide
  · refine e.port.atoi fun c hc => ?_
    rw [mem_ending (List.mem_of_mem_head? hc)]
    rfl

/-- A rule is read as it is written. -/
theorem parseDnatRules_written (nat : Settings) (e i : Endpoint) (newline : Bool) :
    parseDnatRules nat ((Line.dnatRules e i).text ++ ending newline) =
      .ok { nat with rules := nat.rules ++ (Line.dnatRules e i).rule.toList } := by
  have hline : (Line.dnatRules e i).text ++ ending newline =
      dnatRulesDes ++ ':' :: ' ' :: (e.text ++ ' ' :: '-' :: '>' :: ' ' :: (i.text ++ ending newline)) := by
    simp [Line.text]
  have hdes : nextToken
      (dnatRulesDes ++ ':' :: ' ' :: (e.text ++ ' ' :: '-' :: '>' :: ' ' :: (i.text ++ ending newline))) [':', ' '] =
        .ok (dnatRulesDes, _) :=
    nextToken_cut (by decide) (des_clean rfl) (by decide) _
  have hip1 : nextToken (' ' :: (e.text ++ ' ' :: '-' :: '>' :: ' ' :: (i.text ++ ending newline))) [' '] =
      .ok (e.text, '-' :: '>' :: ' ' :: (i.text ++ ending newline)) :=
    nextToken_token (s := [' ']) (fun c hc => hc) (text_ne_nil e)
      (text_not_mem e (by simp) (by decide) (by decide)) fun c hc => by cases hc; decide
  have hip2 : nextToken ('-' :: '>' :: ' ' :: (i.text ++ ending newline)) ['-', '>', ' '] =
      .ok (i.text ++ ending newline, []) := by
    refine nextToken_all (s := ['-', '>', ' ']) (fun c hc => hc)
      (List.append_ne_nil_of_left_ne_nil (text_ne_nil i) _) fun c hc => ?_
    rcases List.mem_append.mp hc with hc | hc
    · exact text_not_mem i (by simp) (by decide) (by decide) c hc
    · rw [mem_ending hc]
      decide
  obtain ⟨rest1, haddr1, port1, hport1, hnum1⟩ := endpoint_tokens e false
  obtain ⟨rest2, haddr2, port2, hport2, hnum2⟩ := endpoint_tokens i newline
  rw [show e.text ++ ending false = e.text from List.append_nil _] at haddr1
  simp only [hline, parseDnatRules, hdes, hip1, hip2, haddr1, hport1, haddr2, hport2, Fallible.ok_bind,
    netParser_dotted, hnum1, hnum2, BitVec.ofInt_natCast]
  rfl

/-! ### The line taken for what it is -/

/-- A line with a rule holds no letter that its first word does not. -/
theorem dnatRules_not_mem (e i : Endpoint) (hdes : c ∉ dnatRulesDes) (hother : c ∉ [':', ' ', '-', '>', '.'])
    (hdigit : c.isDigit = false) : c ∉ (Line.dnatRules e i).text := by
  have hend : ∀ e : Endpoint, c ∉ e.text := by
    intro e hmem
    rcases mem_text hmem with h | h
    · exact absurd (h.symm.trans hdigit) (by decide)
    · refine hother ?_
      rcases List.mem_cons.mp h with rfl | h
      · decide
      · rw [List.mem_singleton.mp h]
        decide
  simp only [List.mem_cons, List.not_mem_nil, or_false, not_or] at hother
  simp [Line.text, hdes, hend, hother]

theorem dnatRules_lacks (e i : Endpoint) {des : List Char} (hdes : 'f' ∈ des) :
    ¬des <:+: (Line.dnatRules e i).text ++ ending newline := by
  intro hfound
  rcases List.mem_append.mp (hfound.mem hdes) with h | h
  · exact dnatRules_not_mem e i (by decide) (by decide) (by decide) h
  · exact absurd (mem_ending h) (by decide)

/-- The word for the internal interface is found in the line of the external one if it is in the name. -/
theorem misread_iff (name : Name) (newline : Bool) :
    (strstr ((Line.externalIface name).text ++ ending newline) internalIfaceDes).isSome = name.misread := by
  have hending : internalIfaceDes <:+: name.chars ++ ending newline ↔ internalIfaceDes <:+: name.chars := by
    cases newline with
    | true =>
      refine (infix_around (by decide) (by decide)).trans (or_iff_left ?_)
      rw [List.infix_nil]
      decide
    | false => rw [show name.chars ++ ending false = name.chars from List.append_nil _]
  rw [Bool.eq_iff_iff, Name.misread, strstr_isSome, strstr_isSome, ← hending, Line.text, List.append_assoc,
    List.cons_append, infix_around (by decide) (by decide), List.cons_append]
  refine Iff.trans (or_iff_right ?_) ((infix_around (s := []) (by decide) (by decide)).trans (or_iff_right ?_))
  · decide
  · rw [List.infix_nil]
    decide

theorem strstr_des (des rest : List Char) : (strstr (des ++ rest) des).isSome = true :=
  strstr_isSome.mpr (List.prefix_append des rest).isInfix

/-- One line. -/
theorem parseLine_written (ifaces : List Iface) (nat : Settings) (line : Line) (newline : Bool) :
    parseLine ifaces nat (line.text ++ ending newline) = .ok (nat.read ifaces (line, newline)) := by
  cases line with
  | internalIface name =>
    have hname := ifaceName_written internalIfaceDes (by decide) (des_clean rfl) name newline
    rw [parseLine, Line.text, List.append_assoc, if_pos (strstr_des ..), parseInternalIface, List.cons_append,
      List.cons_append, hname, Fallible.ok_bind]
    exact congrArg (fun rules => Except.ok (Settings.mk _ _ rules)) (List.append_nil _).symm
  | externalIface name =>
    have hname := ifaceName_written externalIfaceDes (by decide) (des_clean rfl) name newline
    have hrules : nat.rules = nat.rules ++ [] := (List.append_nil _).symm
    rw [parseLine, misread_iff]
    cases hmisread : name.misread with
    | true =>
      rw [if_pos rfl, parseInternalIface, Line.text, List.append_assoc, List.cons_append, List.cons_append, hname,
        Fallible.ok_bind]
      simp [Settings.read, Line.readInternal, Line.readExternal, Line.rule, hmisread]
      rfl
    | false =>
      rw [if_neg Bool.false_ne_true, Line.text, List.append_assoc, if_pos (strstr_des ..), parseExternalIface,
        List.cons_append, List.cons_append, hname, Fallible.ok_bind]
      simp [Settings.read, Line.readInternal, Line.readExternal, Line.rule, hmisread]
      rfl
  | dnatRules e i =>
    have hdes : (strstr ((Line.dnatRules e i).text ++ ending newline) dnatRulesDes).isSome = true := by
      rw [Line.text, List.append_assoc]
      exact strstr_des ..
    rw [parseLine, if_neg (mt strstr_isSome.mp (dnatRules_lacks e i (by decide))),
      if_neg (mt strstr_isSome.mp (dnatRules_lacks e i (by decide))), if_pos hdes, parseDnatRules_written]
    rfl

end NetStack.Translation
