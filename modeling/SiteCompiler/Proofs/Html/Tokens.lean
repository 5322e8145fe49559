import Mathlib
import SiteCompiler.Text.Cutting

namespace SiteCompiler.Html

structure Tag where
  isEnd : Bool
  name : List Char
  attributes : List (List Char × List Char)
deriving DecidableEq

inductive Token where
  | char (c : Char)
  | tag (t : Tag)
  | declaration (text : List Char)
deriving DecidableEq

def Tag.add (t : Tag) (name value : List Char) : Tag :=
  { t with attributes := t.attributes ++ [(name, value)] }

/-- Where the reader stands. Declarations are taken to end at the next `>`, as those of a document type
do; of the elements whose content is not markup, scripts are the only ones. -/
inductive State where
  | data
  | tagOpen
  | endTagOpen
  | declaration (text : List Char)
  | tagName (t : Tag)
  | beforeName (t : Tag)
  | attributeName (t : Tag) (name : List Char)
  | afterName (t : Tag) (name : List Char)
  | beforeValue (t : Tag) (name : List Char)
  | quoted (t : Tag) (name : List Char) (quote : Char) (value : List Char)
  | unquoted (t : Tag) (name value : List Char)
  | afterValue (t : Tag)
  | selfClosing (t : Tag)
  | script
  | scriptLess
  | escapeStart (hasDash : Bool)
  | escaped (dashes : Fin 3)
  | escapedLess
  | doubleStart (name : List Char)
  | doubleEscaped (dashes : Fin 3)
  | doubleLess
  | doubleEnd (name : List Char)
  | scriptEndOpen (isEscaped : Bool)
  | scriptEndName (isEscaped : Bool) (name : List Char)
deriving DecidableEq

def isBlank (c : Char) : Bool :=
  c = ' ' || c = '\n' || c = '\t' || c = '\r' || c = '\x0c'

def endsName (c : Char) : Bool :=
  isBlank c || c = '/' || c = '>'

def chars (cs : List Char) : List Token :=
  cs.map .char

def scriptName : List Char :=
  "script".toList

def endScript : Tag :=
  ⟨true, scriptName, []⟩

abbrev Step : Type :=
  List Token × State

namespace State

def close (t : Tag) : Step :=
  ([.tag t], if t.isEnd = false ∧ t.name = scriptName then script else data)

def readData (c : Char) : Step :=
  if c = '<' then ([], tagOpen) else ([.char c], data)

def readBeforeName (t : Tag) (c : Char) : Step :=
  if isBlank c then ([], beforeName t)
  else if c = '/' then ([], selfClosing t)
  else if c = '>' then close t
  else ([], attributeName t [c.toLower])

def readTagName (t : Tag) (c : Char) : Step :=
  if endsName c then readBeforeName t c
  else ([], tagName { t with name := t.name ++ [c.toLower] })

def readAfterName (t : Tag) (name : List Char) (c : Char) : Step :=
  if isBlank c then ([], afterName t name)
  else if c = '=' then ([], beforeValue t name)
  else readBeforeName (t.add name []) c

def readAttributeName (t : Tag) (name : List Char) (c : Char) : Step :=
  if endsName c || c = '=' then readAfterName t name c
  else ([], attributeName t (name ++ [c.toLower]))

def readBeforeValue (t : Tag) (name : List Char) (c : Char) : Step :=
  if isBlank c then ([], beforeValue t name)
  else if c = '"' || c = '\'' then ([], quoted t name c [])
  else if c = '>' then close (t.add name [])
  else ([], unquoted t name [c])

def readScript (c : Char) : Step :=
  if c = '<' then ([], scriptLess) else ([.char c], script)

def dashesAfter (dashes : Fin 3) (c : Char) : Fin 3 :=
  if c = '-' then (if dashes = 0 then 1 else 2) else 0

def readEscaped (dashes : Fin 3) (c : Char) : Step :=
  if c = '<' then ([], escapedLess)
  else if c = '>' ∧ dashes = 2 then ([.char c], script)
  else ([.char c], escaped (dashesAfter dashes c))

def readDoubleEscaped (dashes : Fin 3) (c : Char) : Step :=
  if c = '<' then ([.char c], doubleLess)
  else if c = '>' ∧ dashes = 2 then ([.char c], script)
  else ([.char c], doubleEscaped (dashesAfter dashes c))

def readContent (isEscaped : Bool) (c : Char) : Step :=
  if isEscaped then readEscaped 0 c else readScript c

def flush (held : List Char) (step : Step) : Step :=
  (chars held ++ step.1, step.2)

def readDoubleStart (name : List Char) (c : Char) : Step :=
  if endsName c then ([.char c], if name = scriptName then doubleEscaped 0 else escaped 0)
  else if c.isAlpha then ([.char c], doubleStart (name ++ [c.toLower]))
  else readEscaped 0 c

def readDoubleEnd (name : List Char) (c : Char) : Step :=
  if endsName c then ([.char c], if name = scriptName then escaped 0 else doubleEscaped 0)
  else if c.isAlpha then ([.char c], doubleEnd (name ++ [c.toLower]))
  else readDoubleEscaped 0 c

/-- The name of an end tag in a script; it is kept as it is written until it is known to be one. -/
def readScriptEndName (isEscaped : Bool) (name : List Char) (c : Char) : Step :=
  if endsName c ∧ name.map Char.toLower = scriptName then readBeforeName endScript c
  else if c.isAlpha then ([], scriptEndName isEscaped (name ++ [c]))
  else flush ('<' :: '/' :: name) (readContent isEscaped c)

def read : State → Char → Step
  | data, c => readData c
  | tagOpen, c =>
    if c = '!' then ([], declaration [])
    else if c = '/' then ([], endTagOpen)
    else if c.isAlpha then readTagName ⟨false, [], []⟩ c
    else if c = '?' then ([], declaration [c])
    else flush ['<'] (readData c)
  | endTagOpen, c =>
    if c.isAlpha then readTagName ⟨true, [], []⟩ c
    else if c = '>' then ([], data)
    else ([], declaration [c])
  | declaration text, c => if c = '>' then ([.declaration text], data) else ([], declaration (text ++ [c]))
  | tagName t, c => readTagName t c
  | beforeName t, c => readBeforeName t c
  | attributeName t name, c => readAttributeName t name c
  | afterName t name, c => readAfterName t name c
  | beforeValue t name, c => readBeforeValue t name c
  | quoted t name quote value, c =>
    if c = quote then ([], afterValue (t.add name value)) else ([], quoted t name quote (value ++ [c]))
  | unquoted t name value, c =>
    if isBlank c || c = '>' then readBeforeName (t.add name value) c
    else ([], unquoted t name (value ++ [c]))
  | afterValue t, c => readBeforeName t c
  | selfClosing t, c => if c = '>' then close t else readBeforeName t c
  | script, c => readScript c
  | scriptLess, c =>
    if c = '/' then ([], scriptEndOpen false)
    else if c = '!' then (chars ['<', '!'], escapeStart false)
    else flush ['<'] (readScript c)
  | escapeStart hasDash, c =>
    if c = '-' then ([.char c], if hasDash then escaped 2 else escapeStart true) else readScript c
  | escaped dashes, c => readEscaped dashes c
  | escapedLess, c =>
    if c = '/' then ([], scriptEndOpen true)
    else if c.isAlpha then (chars ['<', c], doubleStart [c.toLower])
    else flush ['<'] (readEscaped 0 c)
  | doubleStart name, c => readDoubleStart name c
  | doubleEscaped dashes, c => readDoubleEscaped dashes c
  | doubleLess, c => if c = '/' then ([.char c], doubleEnd []) else readDoubleEscaped 0 c
  | doubleEnd name, c => readDoubleEnd name c
  | scriptEndOpen isEscaped, c =>
    if c.isAlpha then ([], scriptEndName isEscaped [c])
    else flush ['<', '/'] (readContent isEscaped c)
  | scriptEndName isEscaped name, c => readScriptEndName isEscaped name c

/-- What a text is read as, and where the reader stands behind it. -/
def run (s : State) : List Char → Step
  | [] => ([], s)
  | c :: rest => ((s.read c).1 ++ (run (s.read c).2 rest).1, (run (s.read c).2 rest).2)

theorem run_append (s : State) (a b : List Char) :
    s.run (a ++ b) = ((s.run a).1 ++ ((s.run a).2.run b).1, ((s.run a).2.run b).2) := by
  induction a generalizing s with
  | nil => rfl
  | cons c a ih =>
    rw [List.cons_append, run, run, ih]
    simp only [List.append_assoc]

theorem run_of_eq {s s' s'' : State} {a b : List Char} {ts us : List Token} (ha : s.run a = (ts, s'))
    (hb : s'.run b = (us, s'')) : s.run (a ++ b) = (ts ++ us, s'') := by
  rw [run_append, ha, hb]

theorem run_quoted (t : Tag) (name value : List Char) {quote : Char} {cs : List Char}
    (h : quote ∉ cs) : (quoted t name quote value).run cs = ([], quoted t name quote (value ++ cs)) := by
  induction cs generalizing value with
  | nil => rw [run, List.append_nil]
  | cons c cs ih =>
    have hne : c ≠ quote := fun hc ↦ h (hc ▸ List.mem_cons_self)
    have hread : (quoted t name quote value).read c = ([], quoted t name quote (value ++ [c])) :=
      if_neg hne
    rw [run, hread, ih (value ++ [c]) fun hm ↦ h (List.mem_cons_of_mem c hm), List.append_assoc]
    rfl

section Content

def isContent : State → Bool
  | script | scriptLess | escapeStart _ | escaped _ | escapedLess | doubleStart _ | doubleEscaped _
  | doubleLess => true
  | _ => false

/-- Inside of a script in a comment in a script, where the end tag is not that of the element. -/
def isDouble : State → Bool
  | doubleEscaped _ | doubleLess => true
  | _ => false

def isLess : State → Bool
  | scriptLess | escapedLess | doubleLess => true
  | _ => false

def held : State → List Char
  | scriptLess | escapedLess => ['<']
  | _ => []

variable {s : State} {c : Char} {held text : List Char} {step : Step}

def Stays (held : List Char) (c : Char) (step : Step) : Prop :=
  ∃ written s', step = (chars written, s') ∧ s'.isContent = true ∧ held ++ [c] = written ++ s'.held ∧
    (s'.isLess = true → c = '<')

theorem stays_readScript (c : Char) : Stays [] c (readScript c) := by
  rw [readScript]
  split
  · next h => exact ⟨[], scriptLess, rfl, rfl, by rw [h]; rfl, fun _ ↦ h⟩
  · exact ⟨[c], script, rfl, rfl, rfl, fun h ↦ by cases h⟩

theorem stays_readEscaped (dashes : Fin 3) (c : Char) : Stays [] c (readEscaped dashes c) := by
  rw [readEscaped]
  split
  · next h => exact ⟨[], escapedLess, rfl, rfl, by rw [h]; rfl, fun _ ↦ h⟩
  · split
    · exact ⟨[c], script, rfl, rfl, rfl, fun h ↦ by cases h⟩
    · exact ⟨[c], escaped _, rfl, rfl, rfl, fun h ↦ by cases h⟩

theorem stays_readDoubleEscaped (dashes : Fin 3) (c : Char) :
    Stays [] c (readDoubleEscaped dashes c) := by
  rw [readDoubleEscaped]
  split
  · next h => exact ⟨[c], doubleLess, rfl, rfl, rfl, fun _ ↦ h⟩
  · split
    · exact ⟨[c], script, rfl, rfl, rfl, fun h ↦ by cases h⟩
    · exact ⟨[c], doubleEscaped _, rfl, rfl, rfl, fun h ↦ by cases h⟩

theorem stays_readDoubleStart (name : List Char) (c : Char) : Stays [] c (readDoubleStart name c) := by
  rw [readDoubleStart]
  split
  · split
    · exact ⟨[c], doubleEscaped 0, rfl, rfl, rfl, fun h ↦ by cases h⟩
    · exact ⟨[c], escaped 0, rfl, rfl, rfl, fun h ↦ by cases h⟩
  · split
    · exact ⟨[c], doubleStart _, rfl, rfl, rfl, fun h ↦ by cases h⟩
    · exact stays_readEscaped 0 c

theorem Stays.flush (h : Stays [] c step) (held : List Char) : Stays held c (flush held step) := by
  obtain ⟨written, s', rfl, hcontent, heq, hless⟩ := h
  refine ⟨held ++ written, s', ?_, hcontent, ?_, hless⟩
  · rw [State.flush, chars, chars, chars, List.map_append]
  · rw [List.append_assoc, ← heq]
    rfl

theorem stays_read (hs : s.isContent = true) (hc : s.isLess = true → c ≠ '/') :
    Stays s.held c (s.read c) := by
  cases s with
  | script => exact stays_readScript c
  | scriptLess =>
    rw [read, if_neg (hc rfl)]
    split
    · next h => exact ⟨['<', '!'], escapeStart false, rfl, rfl, by rw [h]; rfl, fun h ↦ by cases h⟩
    · exact (stays_readScript c).flush ['<']
  | escapeStart hasDash =>
    rw [read]
    split
    · split
      · exact ⟨[c], escaped 2, rfl, rfl, rfl, fun h ↦ by cases h⟩
      · exact ⟨[c], escapeStart true, rfl, rfl, rfl, fun h ↦ by cases h⟩
    · exact stays_readScript c
  | escaped dashes => exact stays_readEscaped dashes c
  | escapedLess =>
    rw [read, if_neg (hc rfl)]
    split
    · exact ⟨['<', c], doubleStart _, rfl, rfl, rfl, fun h ↦ by cases h⟩
    · exact (stays_readEscaped 0 c).flush ['<']
  | doubleStart name => exact stays_readDoubleStart name c
  | doubleEscaped dashes => exact stays_readDoubleEscaped dashes c
  | doubleLess =>
    rw [read, if_neg (hc rfl)]
    exact stays_readDoubleEscaped 0 c
  | _ => cases hs

theorem head?_ne_slash (hc : c = '<') (h : ['<', '/'].isPrefixOf (c :: text) = false) :
    text.head? ≠ some '/' := by
  intro hslash
  obtain ⟨tail, rfl⟩ := List.head?_eq_some_iff.1 hslash
  rw [hc] at h
  simp [List.isPrefixOf] at h

/-- A text without end tags is read as its characters, and what has not been written out of it then is
held back. -/
theorem run_content (hs : s.isContent = true) (h : Text.occursIn ['<', '/'] text = false)
    (hstart : s.isLess = true → text.head? ≠ some '/') :
    ∃ written s', s.run text = (chars written, s') ∧ s'.isContent = true ∧
      s.held ++ text = written ++ s'.held := by
  induction text generalizing s with
  | nil => exact ⟨[], s, rfl, hs, by rw [List.append_nil]; rfl⟩
  | cons c text ih =>
    obtain ⟨written, s', hread, hcontent, heq, hless⟩ :=
      stays_read (c := c) hs fun hl he ↦ hstart hl (by rw [he]; rfl)
    obtain ⟨hhead, hrest⟩ := Bool.or_eq_false_iff.1 h
    have hnext : s'.isLess = true → text.head? ≠ some '/' := fun hl ↦
      head?_ne_slash (hless hl) hhead
    obtain ⟨written', s'', hrun, hcontent', heq'⟩ := ih hcontent hrest hnext
    refine ⟨written ++ written', s'', ?_, hcontent', ?_⟩
    · rw [run, hread, hrun, chars, chars, chars, List.map_append]
    · rw [List.append_assoc, ← heq', ← List.append_assoc, ← heq, List.append_assoc]
      rfl

theorem read_less (hs : s.isContent = true) (hd : s.isDouble = false) :
    s.read '<' = (chars s.held, scriptLess) ∨ s.read '<' = (chars s.held, escapedLess) := by
  cases s with
  | script | scriptLess | escapeStart => exact .inl rfl
  | escaped | escapedLess | doubleStart => exact .inr rfl
  | doubleEscaped | doubleLess => cases hd
  | _ => cases hs

theorem run_endScript (hs : s.isContent = true) (hd : s.isDouble = false) :
    s.run ('<' :: "/script>".toList) = (chars s.held ++ [.tag endScript], data) := by
  have hscript : scriptLess.run "/script>".toList = ([.tag endScript], data) := by decide
  have hescaped : escapedLess.run "/script>".toList = ([.tag endScript], data) := by decide
  rw [run]
  rcases read_less hs hd with h | h
  · rw [h, hscript]
  · rw [h, hescaped]

theorem run_of_isDouble (hd : s.isDouble = true) (rest : List Char) :
    ∃ ts s', s.run ('<' :: rest) = (.char '<' :: ts, s') ∧ s.held = [] := by
  cases s with
  | doubleEscaped | doubleLess => exact ⟨_, _, rfl, rfl⟩
  | _ => cases hd

def isPlain : State → Bool
  | script | scriptLess | escapeStart _ => true
  | _ => false

theorem isContent_of_isPlain (h : s.isPlain = true) : s.isContent = true := by
  cases s with
  | script | scriptLess | escapeStart => rfl
  | _ => cases h

theorem isDouble_of_isPlain (h : s.isPlain = true) : s.isDouble = false := by
  cases s with
  | script | scriptLess | escapeStart => rfl
  | _ => cases h

def opening : State → List Char
  | scriptLess => ['<']
  | escapeStart false => ['<', '!']
  | escapeStart true => ['<', '!', '-']
  | _ => []

theorem occursIn_of_suffix {needle a b : List Char} (h : Text.occursIn needle b = false)
    (hs : a <:+ b) : Text.occursIn needle a = false := by
  obtain ⟨front, rfl⟩ := hs
  induction front with
  | nil => exact h
  | cons c front ih => exact ih (Bool.or_eq_false_iff.1 h).2

theorem isPlain_readScript (c : Char) :
    (readScript c).2.isPlain = true ∧ (readScript c).2.opening <:+ [c] := by
  rw [readScript]
  split
  · next h => exact ⟨rfl, by rw [h]; exact List.suffix_rfl⟩
  · exact ⟨rfl, List.nil_suffix⟩

/-- A step out of the plain script reads an end tag or completes the beginning of a comment. -/
theorem isPlain_read (hs : s.isPlain = true) (hc : s.isLess = true → c ≠ '/')
    (ho : s.opening ++ [c] ≠ "<!--".toList) :
    (s.read c).2.isPlain = true ∧ (s.read c).2.opening <:+ s.opening ++ [c] := by
  cases s with
  | script => exact isPlain_readScript c
  | scriptLess =>
    rw [read, if_neg (hc rfl)]
    split
    · next h => exact ⟨rfl, by rw [h]; exact List.suffix_rfl⟩
    · exact ⟨(isPlain_readScript c).1, (isPlain_readScript c).2.trans (List.suffix_append _ _)⟩
  | escapeStart hasDash =>
    rw [read]
    split
    · next h =>
      subst h
      cases hasDash with
      | false => exact ⟨rfl, List.suffix_rfl⟩
      | true => exact absurd rfl ho
    · exact ⟨(isPlain_readScript c).1, (isPlain_readScript c).2.trans (List.suffix_append _ _)⟩
  | _ => cases hs

theorem isPlain_run (hs : s.isPlain = true) (h : Text.occursIn ['<', '/'] text = false)
    (hstart : s.isLess = true → text.head? ≠ some '/')
    (ho : Text.occursIn "<!--".toList (s.opening ++ text) = false) :
    (s.run text).2.isPlain = true := by
  induction text generalizing s with
  | nil => exact hs
  | cons c text ih =>
    have hc : s.isLess = true → c ≠ '/' := fun hl he ↦ hstart hl (by rw [he]; rfl)
    have hopening : s.opening ++ [c] ≠ "<!--".toList := by
      intro he
      have hfound : Text.occursIn "<!--".toList (s.opening ++ c :: text) = true := by
        rw [← List.singleton_append, ← List.append_assoc, he]
        rfl
      rw [ho] at hfound
      cases hfound
    obtain ⟨hplain, front, hfront⟩ := isPlain_read hs hc hopening
    obtain ⟨hhead, hrest⟩ := Bool.or_eq_false_iff.1 h
    refine ih hplain hrest (fun hl ↦ ?_) (occursIn_of_suffix ho ⟨front, ?_⟩)
    · obtain ⟨written, s', hread, -, -, hless⟩ := stays_read (isContent_of_isPlain hs) hc
      rw [hread] at hl
      exact head?_ne_slash (hless hl) hhead
    · rw [← List.append_assoc, hfront, List.append_assoc]
      rfl

end Content

end State

end SiteCompiler.Html
