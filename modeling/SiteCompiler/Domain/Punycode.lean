namespace SiteCompiler.Domain.Punycode

def digitChar (d : Nat) : Char :=
  if d < 26 then Char.ofNat (97 + d) else Char.ofNat (22 + d)

def digitValue? (c : Char) : Option Nat :=
  if 'a' ≤ c ∧ c ≤ 'z' then some (c.toNat - 97)
  else if 'A' ≤ c ∧ c ≤ 'Z' then some (c.toNat - 65)
  else if '0' ≤ c ∧ c ≤ '9' then some (c.toNat - 22)
  else none

def threshold (k bias : Nat) : Nat :=
  if k ≤ bias then 1 else if bias + 26 ≤ k then 26 else k - bias

theorem threshold_pos (k bias : Nat) : 1 ≤ threshold k bias := by
  unfold threshold
  repeat' split
  all_goals omega

def adaptLoop (delta k : Nat) : Nat × Nat :=
  if 455 < delta then adaptLoop (delta / 35) (k + 36) else (delta, k)
termination_by delta

/-- The bias after a delta that brought the number of written characters to `count`. -/
def adapt (delta count : Nat) (first : Bool) : Nat :=
  let delta := if first then delta / 700 else delta / 2
  let (delta, k) := adaptLoop (delta + delta / count) 0
  k + 36 * delta / (delta + 38)

def encodeDelta (bias k q : Nat) : List Char :=
  let t := threshold k bias
  if q < t then [digitChar q]
  else digitChar (t + (q - t) % (36 - t)) :: encodeDelta bias (k + 36) ((q - t) / (36 - t))
termination_by q
decreasing_by
  have := threshold_pos k bias
  have := Nat.div_le_self (q - threshold k bias) (36 - threshold k bias)
  omega

structure Encoder where
  output : List Char
  delta : Nat
  bias : Nat
  written : Nat

/-- Passes over one character of the label while the characters of code `n` are being written. -/
def encodeStep (basic n : Nat) (s : Encoder) (c : Char) : Encoder :=
  if c.toNat < n then { s with delta := s.delta + 1 }
  else if c.toNat = n then
    { output := s.output ++ encodeDelta s.bias 36 s.delta
      delta := 0
      bias := adapt s.delta (s.written + 1) (s.written = basic)
      written := s.written + 1 }
  else s

def encode (label : List Char) : List Char :=
  let basic := label.filter (·.toNat < 128)
  let codes := ((label.map Char.toNat).filter (128 ≤ ·)).eraseDups.mergeSort
  let start : Encoder :=
    { output := if basic.isEmpty then [] else basic ++ ['-'], delta := 0, bias := 72,
      written := basic.length }
  (codes.foldl (fun (s, n) code =>
    let s := { s with delta := s.delta + (code - n) * (s.written + 1) }
    let s := label.foldl (encodeStep basic.length code) s
    ({ s with delta := s.delta + 1 }, code + 1)) (start, 128)).1.output

def decodeDelta (bias : Nat) : Nat → Nat → Nat → List Char → Option (Nat × List Char)
  | _, _, _, [] => none
  | k, w, i, c :: rest => do
    let d ← digitValue? c
    let t := threshold k bias
    let i := i + d * w
    if d < t then return (i, rest) else decodeDelta bias (k + 36) (w * (36 - t)) i rest

theorem decodeDelta_length_lt {bias k w i : Nat} {cs : List Char} {r : Nat × List Char}
    (h : decodeDelta bias k w i cs = some r) : r.2.length < cs.length := by
  induction cs generalizing k w i with
  | nil => simp [decodeDelta] at h
  | cons c rest ih =>
    simp only [decodeDelta] at h
    cases hd : digitValue? c with
    | none => simp [hd] at h
    | some d =>
      simp only [hd, Option.bind_eq_bind, Option.bind_some] at h
      split at h
      · cases h; simp
      · exact Nat.lt_succ_of_lt (ih h)

/-- Inserts the characters that the deltas name; `i` and `n` are the last position and code. -/
def decodeLoop (output : List Char) (n i bias : Nat) (cs : List Char) : Option (List Char) :=
  match cs with
  | [] => some output
  | c :: rest =>
    match _h : decodeDelta bias 36 1 i (c :: rest) with
    | none => none
    | some (j, rest') =>
      let count := output.length + 1
      let code := n + j / count
      if code.isValidChar then
        decodeLoop (output.insertIdx (j % count) (Char.ofNat code)) code (j % count + 1)
          (adapt (j - i) count (i = 0)) rest'
      else none
termination_by cs.length
decreasing_by exact decodeDelta_length_lt (by assumption)

def decode? (text : List Char) : Option (List Char) :=
  match text.reverse.dropWhile (· ≠ '-') with
  | [] => decodeLoop [] 128 0 72 text
  | _ :: basic =>
    decodeLoop basic.reverse 128 0 72 (text.reverse.takeWhile (· ≠ '-')).reverse

end SiteCompiler.Domain.Punycode
