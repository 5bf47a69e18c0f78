import NetStack.Translation.Config

/-! A configuration written to a file and read back (`parse_config` of
`EXP13-NAT/13-nat/nat.c`).

The lines come out of the file as they went in, and what each sets stands until another sets it
(`foldl_slot`). The rules are always read as they are written; the interfaces are where the last
names that are read are the last that are meant (`parseConfig_iff`). -/
namespace NetStack.Translation
open CString

variable {ifaces : List Iface} {lines : List Line} {newline : Bool} {c : Char}

/-! ### The file -/

/-- The lines, each with whether it has its end. -/
def marked (lines : List Line) (newline : Bool) : List (Line × Bool) :=
  lines.dropLast.map (fun line => (line, true)) ++ lines.getLast?.toList.map fun line => (line, newline)

theorem marked_snoc (init : List Line) (last : Line) (newline : Bool) :
    marked (init ++ [last]) newline = init.map (fun line => (line, true)) ++ [(last, newline)] := by
  simp [marked]

theorem map_fst_marked (lines : List Line) (newline : Bool) : (marked lines newline).map Prod.fst = lines := by
  rcases List.eq_nil_or_concat' lines with rfl | ⟨init, last, rfl⟩
  · rfl
  · simp [marked_snoc, Function.comp_def]

/-- No line holds an end of its own, or a NUL. -/
theorem text_clean (line : Line) (hc : c ∈ ['\n', '\x00']) : c ∉ line.text := by
  have hother : c ∉ internalIfaceDes ∧ c ∉ externalIfaceDes ∧ c ∉ dnatRulesDes ∧ c ∉ [':', ' ', '-', '>', '.'] ∧
      c.isDigit = false ∧ c ∈ [' ', ':', '\n', '\x00'] := by
    simp only [List.mem_cons, List.not_mem_nil, or_false] at hc
    rcases hc with rfl | rfl <;> decide
  obtain ⟨hinternal, hexternal, hdnat, hpunct, hdigit, hunclean⟩ := hother
  have hcolon : c ≠ ':' := fun h => hpunct (by rw [h]; decide)
  have hblank : c ≠ ' ' := fun h => hpunct (by rw [h]; decide)
  have hname : ∀ name : Name, c ∉ name.chars := fun name h => name.clean c h hunclean
  cases line with
  | internalIface name => simp [Line.text, hinternal, hcolon, hblank, hname]
  | externalIface name => simp [Line.text, hexternal, hcolon, hblank, hname]
  | dnatRules e i => exact dnatRules_not_mem e i hdnat hpunct hdigit

theorem ofBuffer_line (line : Line) (newline : Bool) :
    ofBuffer (line.text ++ ending newline) = line.text ++ ending newline := by
  refine List.takeWhile_eq_self_iff.mpr fun c hc => decide_eq_true ?_
  intro heq
  obtain rfl := heq
  rcases List.mem_append.mp hc with hc | hc
  · exact text_clean line (by decide) hc
  · exact absurd (mem_ending hc) (by decide)

/-- The lines come out of the file as they went in. -/
theorem readLines_written (hsize : 1 < maxLine) (hlen : ∀ line ∈ lines, line.text.length < 99) (newline : Bool) :
    readLines hsize (written lines newline) = (marked lines newline).map fun l => l.1.text ++ ending l.2 := by
  rcases List.eq_nil_or_concat' lines with rfl | ⟨init, last, rfl⟩
  · cases newline <;> exact readLines_nil hsize
  · have hfit : ∀ text ∈ (init ++ [last]).map Line.text, '\n' ∉ text ∧ text.length + 1 < maxLine := by
      intro text htext
      obtain ⟨line, hline, rfl⟩ := List.mem_map.mp htext
      exact ⟨text_clean line (by decide), Nat.succ_lt_succ (hlen line hline)⟩
    have hflat : ∀ l : List Line,
        (l.flatMap fun line => line.text ++ ['\n']) = (l.map Line.text).flatMap (· ++ ['\n']) :=
      fun l => by rw [List.flatMap_map]
    rw [written, marked_snoc, List.map_append, List.map_map]
    cases newline with
    | true =>
      have h := readLines_lines hsize hfit (s := []) (by decide) (by decide)
      rw [if_pos rfl, hflat, ← List.append_nil (List.flatMap ..), h]
      simp [ending, Function.comp_def]
    | false =>
      rw [List.map_append] at hfit
      have hlast := hfit last.text (List.mem_append_right _ (List.mem_singleton.mpr rfl))
      have h := readLines_lines hsize (fun text htext => hfit text (List.mem_append_left _ htext)) hlast.1
        (Nat.lt_of_succ_lt hlast.2)
      have hne : last.text ≠ [] := by cases last <;> simp [Line.text]
      rw [if_neg Bool.false_ne_true, hflat, List.map_append, List.flatMap_append]
      simp [ending, Function.comp_def, h, hne, ← List.append_assoc]

/-- The settings after a file. -/
theorem parseConfig_written (ifaces : List Iface) (hlen : ∀ line ∈ lines, line.text.length < 99) (newline : Bool) :
    parseConfig ifaces (written lines newline) =
      .ok ((marked lines newline).foldl (Settings.read ifaces) Settings.cleared) := by
  rw [parseConfig, readLines_written _ hlen, List.foldlM_map]
  refine (Fallible.foldlM_ok (g := Settings.read ifaces) id (fun _ => True) (fun nat _ line _ => ⟨?_, trivial⟩)
    trivial).1
  rw [ofBuffer_line]
  exact parseLine_written ifaces nat line.1 line.2

/-! ### A run over the lines -/

/-- What a line sets or leaves stands as the last line that sets it says. -/
theorem foldl_slot {β : Type} (slot : Settings → β) {set : Line × Bool → Option β}
    (hset : ∀ nat line, slot (Settings.read ifaces nat line) = (set line).getD (slot nat)) (ls : List (Line × Bool))
    (nat : Settings) :
    slot (ls.foldl (Settings.read ifaces) nat) = (ls.filterMap set).getLast?.getD (slot nat) := by
  induction ls generalizing nat with
  | nil => rfl
  | cons line ls ih =>
    rw [List.foldl_cons, ih, hset]
    cases h : set line with
    | none => rw [List.filterMap_cons_none h, Option.getD_none]
    | some b => rw [List.filterMap_cons_some h, List.getLast?_cons, Option.getD_some, Option.getD_some]

theorem foldl_rules (ls : List (Line × Bool)) (nat : Settings) :
    (ls.foldl (Settings.read ifaces) nat).rules = nat.rules ++ (ls.map Prod.fst).filterMap Line.rule := by
  induction ls generalizing nat with
  | nil => exact (List.append_nil _).symm
  | cons line ls ih =>
    rw [List.foldl_cons, ih, Settings.read, List.map_cons, List.append_assoc]
    cases h : line.1.rule with
    | none => rw [List.filterMap_cons_none h, Option.toList_none, List.nil_append]
    | some rule => rw [List.filterMap_cons_some h, Option.toList_some, List.singleton_append]

/-- The rules are those that are written. -/
theorem rules_written (lines : List Line) (newline : Bool) :
    ((marked lines newline).foldl (Settings.read ifaces) Settings.cleared).rules = lines.filterMap Line.rule := by
  rw [foldl_rules, map_fst_marked]
  rfl

/-- The interface that a name stands for. -/
def ifaceOf (ifaces : List Iface) (name : Option (List Char)) : Option Iface := name.bind (ifNameToIface ifaces)

theorem foldl_internalIface (ls : List (Line × Bool)) :
    (ls.foldl (Settings.read ifaces) Settings.cleared).internalIface =
      ifaceOf ifaces (ls.filterMap Line.readInternal).getLast? := by
  rw [foldl_slot Settings.internalIface fun _ _ => rfl, ← List.map_filterMap, List.getLast?_map, ifaceOf]
  cases (ls.filterMap Line.readInternal).getLast? <;> rfl

theorem foldl_externalIface (ls : List (Line × Bool)) :
    (ls.foldl (Settings.read ifaces) Settings.cleared).externalIface =
      ifaceOf ifaces (ls.filterMap Line.readExternal).getLast? := by
  rw [foldl_slot Settings.externalIface fun _ _ => rfl, ← List.map_filterMap, List.getLast?_map, ifaceOf]
  cases (ls.filterMap Line.readExternal).getLast? <;> rfl

/-! ### What is read is what is meant -/

/-- An interface is the one that was named last, if any was. -/
def Named (ifaces : List Iface) (iface : Option Iface) : Option (List Char) → Prop
  | none => iface = none
  | some name => ∃ i ∈ ifaces, i.name = name ∧ iface = some i

/-- The settings are those that the lines say. -/
structure AsWritten (ifaces : List Iface) (lines : List Line) (nat : Settings) : Prop where
  internal : Named ifaces nat.internalIface (lines.filterMap Line.internal).getLast?
  external : Named ifaces nat.externalIface (lines.filterMap Line.external).getLast?
  rules : nat.rules = lines.filterMap Line.rule

theorem ifNameToIface_name {name : List Char} {i : Iface} (h : ifNameToIface ifaces name = some i) :
    i ∈ ifaces ∧ i.name = name := by
  have hname := List.find?_some h
  exact ⟨List.mem_of_find?_eq_some h, of_decide_eq_true hname⟩

/-- An interface that is named is found under its name only. -/
theorem named_some {name : List Char} {o : Option (List Char)} (h : Named ifaces (ifaceOf ifaces o) (some name)) :
    o = some name := by
  obtain ⟨i, -, hname, hi⟩ := h
  cases o with
  | none => cases hi
  | some name' => rw [← hname, (ifNameToIface_name hi).2]

/-- Among names of interfaces there are. -/
theorem named_iff {o meant : Option (List Char)} (hexists : ∀ name ∈ o, ∃ i ∈ ifaces, i.name = name) :
    Named ifaces (ifaceOf ifaces o) meant ↔ o = meant := by
  have hfound : ∀ name ∈ o, ∃ i, ifNameToIface ifaces name = some i := by
    intro name hname
    obtain ⟨i, hi, hiname⟩ := hexists name hname
    exact Option.isSome_iff_exists.mp (List.find?_isSome.mpr ⟨i, hi, decide_eq_true hiname⟩)
  cases meant with
  | none =>
    cases o with
    | none => exact iff_of_true rfl rfl
    | some name =>
      obtain ⟨i, hi⟩ := hfound name rfl
      refine iff_of_false (fun h => ?_) (Option.some_ne_none name)
      exact Option.some_ne_none i (hi.symm.trans h)
  | some name =>
    refine ⟨named_some, fun h => ?_⟩
    obtain ⟨i, hi⟩ := hfound name h
    obtain ⟨hmem, hname⟩ := ifNameToIface_name hi
    exact ⟨i, hmem, hname, by rw [h]; exact hi⟩

/-- A last line that names an interface has its end. -/
def Ended (lines : List Line) (newline : Bool) : Prop :=
  newline = true ∨ ∀ line ∈ lines.getLast?, line.rule.isSome = true

/-- The file is read as it is meant: a last line that names an interface has its end, and where the
word for the internal interface is in names of external ones, the last names are the same. -/
structure Readable (lines : List Line) (newline : Bool) : Prop where
  ended : Ended lines newline
  internal : (lines.filterMap fun line => Line.readInternal (line, true)).getLast? =
    (lines.filterMap Line.internal).getLast?
  external : (lines.filterMap fun line => Line.readExternal (line, true)).getLast? =
    (lines.filterMap Line.external).getLast?

/-- The names of a line, as a name of the internal interface or of the external one. -/
theorem readInternal_name {line : Line} {name : List Char} (h : Line.readInternal (line, true) = some name) :
    line.internal = some name ∨ line.external = some name := by
  cases line with
  | internalIface => exact .inl h
  | externalIface n =>
    rw [Line.readInternal] at h
    split at h
    · exact .inr h
    · cases h
  | dnatRules => cases h

theorem readExternal_name {line : Line} {name : List Char} (h : Line.readExternal (line, true) = some name) :
    line.external = some name ∧ (strstr name internalIfaceDes).isSome = false := by
  cases line with
  | internalIface => cases h
  | externalIface n =>
    rw [Line.readExternal] at h
    split at h
    · cases h
    · next hmisread =>
      cases h
      exact ⟨rfl, Bool.eq_false_of_not_eq_true hmisread⟩
  | dnatRules => cases h

/-- Every line is then read as with its end. -/
theorem Ended.filterMap_marked (hended : Ended lines newline) {f : Line × Bool → Option (List Char)}
    (hf : ∀ e i b, f (.dnatRules e i, b) = none) :
    (marked lines newline).filterMap f = lines.filterMap fun line => f (line, true) := by
  rcases List.eq_nil_or_concat' lines with rfl | ⟨init, last, rfl⟩
  · rfl
  · have hlast : f (last, newline) = f (last, true) := by
      rcases hended with rfl | hrule
      · rfl
      · rw [List.getLast?_concat] at hrule
        cases last with
        | internalIface => cases hrule _ rfl
        | externalIface => cases hrule _ rfl
        | dnatRules e i => rw [hf, hf]
    simp only [marked_snoc, List.filterMap_append, List.filterMap_map, List.filterMap_cons, List.filterMap_nil, hlast,
      Function.comp_def]

theorem Name.read_false_ne (name : Name) : name.chars.dropLast ≠ name.chars := by
  intro h
  have hlen := congrArg List.length h
  rw [List.length_dropLast] at hlen
  have hpos := List.length_pos_of_ne_nil name.ne_nil
  omega

theorem getLast?_filterMap_snoc {α β : Type} {f : α → Option β} {init : List α} {last : α} {b : β}
    (h : f last = some b) : ((init ++ [last]).filterMap f).getLast? = some b := by
  rw [List.filterMap_append, List.filterMap_cons_some h, List.filterMap_nil, List.getLast?_concat]

/-- A last line that names an interface and has no end is not read as it is meant. -/
theorem not_asWritten {init : List Line} {last : Line} (hlast : last.rule.isSome = false) :
    ¬AsWritten ifaces (init ++ [last])
      ((marked (init ++ [last]) false).foldl (Settings.read ifaces) Settings.cleared) := by
  intro h
  obtain ⟨hinternal, hexternal, -⟩ := h
  rw [foldl_internalIface, marked_snoc] at hinternal
  rw [foldl_externalIface, marked_snoc] at hexternal
  cases last with
  | internalIface name =>
    rw [getLast?_filterMap_snoc (f := Line.internal) rfl, getLast?_filterMap_snoc (f := Line.readInternal) rfl]
      at hinternal
    exact name.read_false_ne (Option.some.inj (named_some hinternal))
  | externalIface name =>
    rw [getLast?_filterMap_snoc (f := Line.external) rfl] at hexternal
    have hread := named_some hexternal
    cases hmisread : name.misread with
    | true =>
      -- an earlier line has then named the same interface, which it could not
      have hnone : Line.readExternal (Line.externalIface name, false) = none := if_pos hmisread
      rw [List.filterMap_append, List.filterMap_cons_none hnone, List.filterMap_nil, List.append_nil] at hread
      obtain ⟨line, hline, hname⟩ := List.mem_filterMap.mp (List.mem_of_getLast? hread)
      obtain ⟨line, -, rfl⟩ := List.mem_map.mp hline
      exact Bool.false_ne_true ((readExternal_name hname).2.symm.trans hmisread)
    | false =>
      have hsome : Line.readExternal (Line.externalIface name, false) = some name.chars.dropLast := by
        rw [Line.readExternal, hmisread, if_neg Bool.false_ne_true]
        rfl
      rw [getLast?_filterMap_snoc hsome] at hread
      exact name.read_false_ne (Option.some.inj hread)
  | dnatRules => cases hlast

/-- Where it has its end, the names decide. -/
theorem asWritten_iff (hended : Ended lines newline)
    (hexists : ∀ line ∈ lines, ∀ name, line.internal = some name ∨ line.external = some name →
      ∃ i ∈ ifaces, i.name = name) :
    AsWritten ifaces lines ((marked lines newline).foldl (Settings.read ifaces) Settings.cleared) ↔
      Readable lines newline := by
  have hinternal : Named ifaces ((marked lines newline).foldl (Settings.read ifaces) Settings.cleared).internalIface
      (lines.filterMap Line.internal).getLast? ↔
        (lines.filterMap fun line => Line.readInternal (line, true)).getLast? =
          (lines.filterMap Line.internal).getLast? := by
    rw [foldl_internalIface, hended.filterMap_marked fun _ _ _ => rfl]
    refine named_iff fun name hname => ?_
    obtain ⟨line, hline, hread⟩ := List.mem_filterMap.mp (List.mem_of_getLast? hname)
    exact hexists line hline name (readInternal_name hread)
  have hexternal : Named ifaces ((marked lines newline).foldl (Settings.read ifaces) Settings.cleared).externalIface
      (lines.filterMap Line.external).getLast? ↔
        (lines.filterMap fun line => Line.readExternal (line, true)).getLast? =
          (lines.filterMap Line.external).getLast? := by
    rw [foldl_externalIface, hended.filterMap_marked fun _ _ _ => rfl]
    refine named_iff fun name hname => ?_
    obtain ⟨line, hline, hread⟩ := List.mem_filterMap.mp (List.mem_of_getLast? hname)
    exact hexists line hline name (.inr (readExternal_name hread).1)
  constructor
  · intro h
    exact ⟨hended, hinternal.mp h.internal, hexternal.mp h.external⟩
  · intro h
    exact ⟨hinternal.mpr h.internal, hexternal.mpr h.external, rules_written lines newline⟩

/-- **Configuration.** Whatever interfaces and rules are written to a file, in any order, with or
without an end of the last line, the rules are read as they are, in order, and the interfaces as
they are named, exactly if the last line has its end where it names an interface, and names that
hold the word for the internal interface do not change which name is the last. -/
theorem parseConfig_iff (ifaces : List Iface) (lines : List Line) (newline : Bool)
    (hlen : ∀ line ∈ lines, line.text.length < 99)
    (hexists : ∀ line ∈ lines, ∀ name, line.internal = some name ∨ line.external = some name →
      ∃ i ∈ ifaces, i.name = name) :
    ∃ nat, parseConfig ifaces (written lines newline) = .ok nat ∧ nat.rules = lines.filterMap Line.rule ∧
      (AsWritten ifaces lines nat ↔ Readable lines newline) := by
  refine ⟨_, parseConfig_written ifaces hlen newline, rules_written lines newline, ?_⟩
  by_cases hended : Ended lines newline
  · exact asWritten_iff hended hexists
  · refine iff_of_false (fun h => ?_) fun h => hended h.ended
    rw [Ended, not_or, Bool.not_eq_true] at hended
    obtain ⟨rfl, hrule⟩ := hended
    rcases List.eq_nil_or_concat' lines with rfl | ⟨init, last, rfl⟩
    · exact hrule nofun
    · refine not_asWritten (Bool.eq_false_of_not_eq_true fun hlast => hrule ?_) h
      rw [List.getLast?_concat]
      intro line hline
      cases hline
      exact hlast

def Name.of (chars : List Char) (h : chars ≠ [] ∧ chars.all (· ∉ [' ', ':', '\n', '\x00']) = true) : Name :=
  ⟨chars, h.1, fun c hc => of_decide_eq_true (List.all_eq_true.mp h.2 c hc)⟩

def Numeral.of {low high : Nat} (digits : List Char)
    (h : digits ≠ [] ∧ digits.all Char.isDigit = true ∧ low ≤ decimal digits ∧ decimal digits ≤ high) :
    Numeral low high :=
  ⟨digits, h.1, List.all_eq_true.mp h.2.1, h.2.2⟩

def eth0 : Name := .of "n1-eth0".toList (by decide)
def eth1 : Name := .of "n1-eth1".toList (by decide)

/-- Two interfaces, and a server behind the translator. -/
def router : List Iface := [⟨eth0.chars, 1⟩, ⟨eth1.chars, 2⟩]

def server : Line :=
  .dnatRules
    ⟨.of "159".toList (by decide), .of "226".toList (by decide), .of "39".toList (by decide),
      .of "43".toList (by decide), .of "8001".toList (by decide)⟩
    ⟨.of "10".toList (by decide), .of "21".toList (by decide), .of "0".toList (by decide),
      .of "2".toList (by decide), .of "8000".toList (by decide)⟩

theorem parseConfig_iff_server :
    ∃ nat, parseConfig router (written [.internalIface eth0, .externalIface eth1, server] false) = .ok nat ∧
      nat.rules = [.internalIface eth0, .externalIface eth1, server].filterMap Line.rule ∧
      (AsWritten router [.internalIface eth0, .externalIface eth1, server] nat ↔
        Readable [.internalIface eth0, .externalIface eth1, server] false) := by
  refine parseConfig_iff router [.internalIface eth0, .externalIface eth1, server] false (by decide) ?_
  simp [Line.internal, Line.external, server, router]

/-- The name of the last line loses a letter, and names no interface. -/
theorem parseConfig_cuts :
    written [.internalIface eth0, .externalIface eth1] false =
        "internal-iface: n1-eth0\nexternal-iface: n1-eth1".toList ∧
      parseConfig router (written [.internalIface eth0, .externalIface eth1] false) =
        .ok ⟨some ⟨eth0.chars, 1⟩, none, []⟩ ∧
      ¬AsWritten router [.internalIface eth0, .externalIface eth1] ⟨some ⟨eth0.chars, 1⟩, none, []⟩ := by
  refine ⟨by decide, ?_, fun h => ?_⟩
  · rw [parseConfig_written router (by decide)]
    exact congrArg Except.ok (by decide)
  · obtain ⟨i, -, -, hi⟩ := h.external
    cases hi

end NetStack.Translation
