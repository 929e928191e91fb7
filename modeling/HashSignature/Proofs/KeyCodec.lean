/-
# HashSignature.Proofs.KeyCodec — the encodings of keys are exactly the strings of their length

An encoded key has no redundancy: each string of the right length is the encoding of one key. A key
that the library hands out is more than its encoding, because behind each part its place holds zeros;
decoding puts the same zeros there, so the key comes back as it was.

* `WellFormed.eq_of_signingKey`, `WellFormed.eq_of_parts` — a well-formed key is determined by the
  bytes of its parts.
* `PrivateKey.ExactCodec`, `PublicKey.ExactCodec`, `PublicKey.ExactHex` — what decoding accepts, what
  it refuses, and that encoding and decoding undo each other.
* `codecs_are_exact` — all three hold for accepted parameters; text that is not hexadecimal is refused
  as such, whatever the parameters.
-/
import HashSignature.Proofs.Hex
import HashSignature.Proofs.KeySafety

namespace HashSignature

set_option autoImplicit false

open Outcome

variable {p : Params}

/-! ## Parts -/

/-- A string can be cut where its length is a sum. -/
theorem Bytes.exists_append {bytes : Bytes} {k m : Nat} (length : bytes.length = k + m) :
    ∃ front back, bytes = front ++ back ∧ front.length = k ∧ back.length = m := by
  refine ⟨bytes.take k, bytes.drop k, (List.take_append_drop k bytes).symm, ?_, ?_⟩
  · rw [List.length_take]; omega
  · rw [List.length_drop]; omega

/-- A place with zeros behind a part is determined by the part. -/
theorem Slot.Padded.eq_of_front {a b : Slot} {n : Nat} (padded : a.Padded n) (padded' : b.Padded n)
    (same : a.front n = b.front n) : a = b :=
  Slot.ext (Bytes.eq_of_take_drop_eq same (padded.trans padded'.symm))

/-! ## Codecs -/

/-- A codec of keys whose encodings are the strings of one length; the keys in question are decoded
from their encodings just as they are. -/
structure ExactCodec {Key : Type} (what : String) (width : Nat) (decode : Bytes → Outcome Key)
    (encode : Key → Bytes) (inQuestion : Key → Prop) : Prop where
  accepts : ∀ bytes, (∃ key, decode bytes = .ok key) ↔ bytes.length = width
  refuses : ∀ bytes, bytes.length ≠ width →
    decode bytes = refuse (.invalidLength what width bytes.length)
  encodes : ∀ bytes key, decode bytes = .ok key → encode key = bytes
  decodes : ∀ key, inQuestion key → decode (encode key) = .ok key

/-- It takes a key for each string of the length, and a refusal of all others. -/
theorem ExactCodec.of_total {Key : Type} {what : String} {width : Nat}
    {decode : Bytes → Outcome Key} {encode : Key → Bytes} {inQuestion : Key → Prop}
    (total : ∀ bytes, bytes.length = width → ∃ key, decode bytes = .ok key ∧ encode key = bytes)
    (refuses : ∀ bytes, bytes.length ≠ width →
      decode bytes = refuse (.invalidLength what width bytes.length))
    (decodes : ∀ key, inQuestion key → decode (encode key) = .ok key) :
    ExactCodec what width decode encode inQuestion := by
  have length_of (bytes : Bytes) (key : Key) (decoded : decode bytes = .ok key) :
      bytes.length = width := by
    by_cases length : bytes.length = width
    case pos => exact length
    case neg =>
      rw [refuses bytes length] at decoded
      exact absurd decoded (refuse_ne_ok _ key)
  refine { accepts := fun bytes => ⟨?_, ?_⟩, refuses, encodes := ?_, decodes }
  · rintro ⟨key, decoded⟩
    exact length_of bytes key decoded
  · intro length
    obtain ⟨key, decoded, -⟩ := total bytes length
    exact ⟨key, decoded⟩
  · intro bytes key decoded
    obtain ⟨same, decoded', encoded⟩ := total bytes (length_of bytes key decoded)
    rw [decoded, Except.ok.injEq] at decoded'
    rw [decoded', encoded]

/-! ## Private keys -/

namespace PrivateKey

/-- A well-formed key is determined by its parameters and what it signs with. -/
theorem WellFormed.eq_of_signingKey {key other : PrivateKey} (formed : key.WellFormed)
    (formed' : other.WellFormed) (params : key.params = other.params)
    (parts : key.signingKey = other.signingKey) : key = other := by
  obtain ⟨p, skSeed, skPrf, pkSeed, pkRoot⟩ := key
  obtain ⟨_, skSeed', skPrf', pkSeed', pkRoot'⟩ := other
  obtain rfl : p = _ := params
  obtain ⟨skSeed_eq, skPrf_eq, pkSeed_eq, pkRoot_eq⟩ := Signing.SigningKey.mk.inj parts
  obtain rfl : skSeed = skSeed' := formed.skSeed.eq_of_front formed'.skSeed skSeed_eq
  obtain rfl : skPrf = skPrf' := formed.skPrf.eq_of_front formed'.skPrf skPrf_eq
  obtain rfl : pkSeed = pkSeed' := formed.pkSeed.eq_of_front formed'.pkSeed pkSeed_eq
  obtain rfl : pkRoot = pkRoot' := formed.pkRoot.eq_of_front formed'.pkRoot pkRoot_eq
  rfl

/-- A string of four parts is decoded to a key that has it as its encoding. -/
theorem exists_ofBytes (accepted : p.check = .ok ()) {bytes : Bytes}
    (length : bytes.length = 4 * p.n.toNat) :
    ∃ key, ofBytes p bytes = .ok key ∧ key.toBytes = bytes := by
  obtain ⟨seeds, root, rfl, seeds_length, root_length⟩ :=
    Bytes.exists_append (show bytes.length = 3 * p.n.toNat + p.n.toNat by omega)
  obtain ⟨secrets, pkSeed, rfl, secrets_length, pkSeed_length⟩ :=
    Bytes.exists_append (show seeds.length = 2 * p.n.toNat + p.n.toNat by omega)
  obtain ⟨skSeed, skPrf, rfl, skSeed_length, skPrf_length⟩ :=
    Bytes.exists_append (show secrets.length = p.n.toNat + p.n.toNat by omega)
  obtain ⟨key, decoded, -, parts⟩ :=
    ofBytes_append accepted skSeed_length skPrf_length pkSeed_length root_length
  obtain ⟨skSeed_eq, skPrf_eq, pkSeed_eq, pkRoot_eq⟩ := Signing.SigningKey.mk.inj parts
  exact ⟨key, decoded, by rw [toBytes, skSeed_eq, skPrf_eq, pkSeed_eq, pkRoot_eq]⟩

/-- Other lengths are refused. -/
theorem ofBytes_of_ne (accepted : p.check = .ok ()) {bytes : Bytes}
    (wrong : bytes.length ≠ 4 * p.n.toNat) :
    ofBytes p bytes = refuse (.invalidLength "private key" (4 * p.n.toNat) bytes.length) := by
  rw [ofBytes, accepted, ok_bind]
  simp only []
  rw [(Params.sound_of_check accepted).privateKeySize_eq, ok_bind, if_neg wrong]

/-- A well-formed key is decoded from its encoding, with the same zeros behind its parts. -/
theorem WellFormed.ofBytes_toBytes {key : PrivateKey} (formed : key.WellFormed) :
    ofBytes key.params key.toBytes = .ok key := by
  have le : key.n ≤ Slot.width := (Params.sound_of_check formed.accepted).n_le
  obtain ⟨again, decoded, params, parts⟩ := ofBytes_append formed.accepted
    (key.skSeed.length_front le) (key.skPrf.length_front le) (key.pkSeed.length_front le)
    (key.pkRoot.length_front le)
  obtain rfl : again = key := (wellFormed_of_ofBytes decoded).eq_of_signingKey formed params parts
  exact decoded

/-- The public key is encoded as the second half of the private key. -/
theorem WellFormed.toBytes_publicKey {key : PrivateKey} (formed : key.WellFormed) :
    key.publicKey.toBytes = Bytes.slice (2 * key.n) (2 * key.n) key.toBytes := by
  have le : key.n ≤ Slot.width := (Params.sound_of_check formed.accepted).n_le
  have secrets : (key.skSeed.front key.n ++ key.skPrf.front key.n).length = 2 * key.n := by
    rw [List.length_append, key.skSeed.length_front le, key.skPrf.length_front le]; omega
  have halves : (key.pkSeed.front key.n ++ key.pkRoot.front key.n).length = 2 * key.n := by
    rw [List.length_append, key.pkSeed.length_front le, key.pkRoot.length_front le]; omega
  rw [toBytes, List.append_assoc, Bytes.slice, List.drop_left' secrets,
    List.take_of_length_le (Nat.le_of_eq halves)]
  rfl

/-- The private keys that the library hands out for an instance. -/
def HandedOut (p : Params) (key : PrivateKey) : Prop := key.Reached ∧ key.params = p

theorem HandedOut.of_ofBytes {bytes : Bytes} {key : PrivateKey}
    (decoded : PrivateKey.ofBytes p bytes = .ok key) : HandedOut p key :=
  ⟨.ofBytes decoded, (parts_of_ofBytes decoded).2.1⟩

/-- The encodings of the private keys of an instance are the strings of `4n` bytes. -/
theorem exactCodec (accepted : p.check = .ok ()) :
    ExactCodec "private key" (4 * p.n.toNat) (ofBytes p) toBytes (HandedOut p) := by
  apply ExactCodec.of_total
  · intro bytes length
    exact exists_ofBytes accepted length
  · intro bytes wrong
    exact ofBytes_of_ne accepted wrong
  · rintro key ⟨reached, rfl⟩
    exact reached.wellFormed.ofBytes_toBytes

end PrivateKey

/-! ## Public keys -/

namespace PublicKey

/-- A well-formed key is determined by its parameters and its encoding. -/
theorem WellFormed.eq_of_parts {key other : PublicKey} (formed : key.WellFormed)
    (formed' : other.WellFormed) (params : key.params = other.params)
    (seed_eq : key.seedBytes = other.seedBytes) (root_eq : key.rootBytes = other.rootBytes) :
    key = other := by
  obtain ⟨p, seed, root⟩ := key
  obtain ⟨_, seed', root'⟩ := other
  obtain rfl : p = _ := params
  obtain rfl : seed = seed' := formed.seed.eq_of_front formed'.seed seed_eq
  obtain rfl : root = root' := formed.root.eq_of_front formed'.root root_eq
  rfl

/-- A key decoded from two parts holds them. -/
theorem ofBytes_append (accepted : p.check = .ok ()) {seed root : Bytes}
    (seed_length : seed.length = p.n.toNat) (root_length : root.length = p.n.toNat) :
    ∃ key, ofBytes p (seed ++ root) = .ok key ∧ key.params = p ∧ key.seedBytes = seed ∧
      key.rootBytes = root := by
  have sound := Params.sound_of_check accepted
  obtain ⟨seedSlot, seed_placed, seed_front⟩ := Slot.ofPart_of "public seed" seed_length sound.n_le
  obtain ⟨rootSlot, root_placed, root_front⟩ := Slot.ofPart_of "public root" root_length sound.n_le
  refine ⟨⟨p, seedSlot, rootSlot⟩, ?_, rfl, seed_front, root_front⟩
  rw [ofBytes, accepted, ok_bind]
  simp only []
  rw [sound.publicKeySize_eq, ok_bind, if_pos (by rw [List.length_append]; omega),
    List.take_left' seed_length, seed_placed, ok_bind, List.drop_left' seed_length, root_placed,
    ok_bind, pure_eq_ok]

/-- A string of two parts is decoded to a key that has it as its encoding. -/
theorem exists_ofBytes (accepted : p.check = .ok ()) {bytes : Bytes}
    (length : bytes.length = 2 * p.n.toNat) :
    ∃ key, ofBytes p bytes = .ok key ∧ key.toBytes = bytes := by
  obtain ⟨seed, root, rfl, seed_length, root_length⟩ :=
    Bytes.exists_append (show bytes.length = p.n.toNat + p.n.toNat by omega)
  obtain ⟨key, decoded, -, seed_eq, root_eq⟩ := ofBytes_append accepted seed_length root_length
  exact ⟨key, decoded, by rw [toBytes, seed_eq, root_eq]⟩

/-- Other lengths are refused. -/
theorem ofBytes_of_ne (accepted : p.check = .ok ()) {bytes : Bytes}
    (wrong : bytes.length ≠ 2 * p.n.toNat) :
    ofBytes p bytes = refuse (.invalidLength "public key" (2 * p.n.toNat) bytes.length) := by
  rw [ofBytes, accepted, ok_bind]
  simp only []
  rw [(Params.sound_of_check accepted).publicKeySize_eq, ok_bind, if_neg wrong]

/-- A well-formed key is decoded from its encoding, with the same zeros behind its parts. -/
theorem WellFormed.ofBytes_toBytes {key : PublicKey} (formed : key.WellFormed) :
    ofBytes key.params key.toBytes = .ok key := by
  have le := (Params.sound_of_check formed.accepted).n_le
  obtain ⟨again, decoded, params, seed_eq, root_eq⟩ := ofBytes_append formed.accepted
    (key.seed.length_front le) (key.root.length_front le)
  obtain rfl : again = key :=
    (wellFormed_of_ofBytes decoded).eq_of_parts formed params seed_eq root_eq
  exact decoded

/-- The public keys that the library hands out for an instance. -/
def HandedOut (p : Params) (key : PublicKey) : Prop := key.Reached ∧ key.params = p

theorem HandedOut.of_ofBytes {bytes : Bytes} {key : PublicKey}
    (decoded : PublicKey.ofBytes p bytes = .ok key) : HandedOut p key :=
  ⟨.ofBytes decoded, (parts_of_ofBytes decoded).2.1⟩

/-- The encodings of the public keys of an instance are the strings of `2n` bytes. -/
theorem exactCodec (accepted : p.check = .ok ()) :
    ExactCodec "public key" (2 * p.n.toNat) (ofBytes p) toBytes (HandedOut p) := by
  apply ExactCodec.of_total
  · intro bytes length
    exact exists_ofBytes accepted length
  · intro bytes wrong
    exact ofBytes_of_ne accepted wrong
  · rintro key ⟨reached, rfl⟩
    exact reached.wellFormed.ofBytes_toBytes

/-! ## Public keys as text -/

/-- Text that is not hexadecimal is refused as such, before the parameters or the length are looked
at. -/
theorem ofHex_of_not_isHex (p : Params) {text : String} (malformed : ¬ Bytes.IsHex text) :
    ∃ reason, ofHex p text = refuse (.invalidKey (.notHex reason)) := by
  rw [ofHex]
  cases read : Bytes.ofHex text with
  | ok bytes => exact absurd ((Bytes.ofHex_iff text).1 ⟨bytes, read⟩) malformed
  | error reason => exact ⟨reason, rfl⟩

/-- Hexadecimal text is decoded as the bytes that it stands for. -/
theorem ofHex_of_isHex {text : String} (formed : Bytes.IsHex text) :
    ∃ bytes, text.length = 2 * bytes.length ∧
      Bytes.toHex bytes = String.ofList (Text.lowerAscii text.toList) ∧
      ∀ p, ofHex p text = ofBytes p bytes := by
  obtain ⟨bytes, read⟩ := (Bytes.ofHex_iff text).2 formed
  obtain ⟨lowered, length⟩ := Bytes.toHex_of_ofHex read
  exact ⟨bytes, length, lowered, fun p => by rw [ofHex, read]⟩

/-- A key that was decoded from text was decoded from the bytes that it stands for. -/
theorem ofBytes_of_ofHex {text : String} {key : PublicKey} (decoded : ofHex p text = .ok key) :
    Bytes.IsHex text ∧ ∃ bytes, text.length = 2 * bytes.length ∧
      Bytes.toHex bytes = String.ofList (Text.lowerAscii text.toList) ∧
      ofBytes p bytes = .ok key := by
  by_cases formed : Bytes.IsHex text
  case pos =>
    obtain ⟨bytes, length, lowered, same⟩ := ofHex_of_isHex formed
    exact ⟨formed, bytes, length, lowered, same p ▸ decoded⟩
  case neg =>
    obtain ⟨reason, refused⟩ := ofHex_of_not_isHex p formed
    rw [refused] at decoded
    exact absurd decoded (refuse_ne_ok _ key)

theorem HandedOut.of_ofHex {text : String} {key : PublicKey}
    (decoded : PublicKey.ofHex p text = .ok key) : HandedOut p key := by
  obtain ⟨-, bytes, -, -, read⟩ := ofBytes_of_ofHex decoded
  exact .of_ofBytes read

theorem ofHex_toHex (p : Params) (key : PublicKey) : ofHex p key.toHex = ofBytes p key.toBytes := by
  rw [ofHex, toHex, Bytes.ofHex_toHex]

/-- The texts of the public keys of an instance are the `4n` hexadecimal digits of either case. -/
structure ExactHex (p : Params) : Prop where
  accepts : ∀ text, (∃ key, ofHex p text = .ok key) ↔
    text.length = 4 * p.n.toNat ∧ ∀ c ∈ text.toList, c ∈ Bytes.hexDigits
  refuses : ∀ text, Bytes.IsHex text → text.length ≠ 4 * p.n.toNat →
    ofHex p text = refuse (.invalidLength "public key" (2 * p.n.toNat) (text.length / 2))
  writes : ∀ text key, ofHex p text = .ok key →
    key.toHex = String.ofList (Text.lowerAscii text.toList)
  reads : ∀ key, HandedOut p key → ofHex p key.toHex = .ok key

theorem exactHex (accepted : p.check = .ok ()) : ExactHex p := by
  have codec := exactCodec accepted
  refine
    { accepts := fun text => ⟨?_, ?_⟩
      refuses := ?_
      writes := ?_
      reads := ?_ }
  · rintro ⟨key, decoded⟩
    obtain ⟨formed, bytes, length, -, read⟩ := ofBytes_of_ofHex decoded
    have bytes_length := (codec.accepts bytes).1 ⟨key, read⟩
    exact ⟨by omega, formed.1⟩
  · rintro ⟨text_length, digits⟩
    obtain ⟨bytes, length, -, same⟩ := ofHex_of_isHex ⟨digits, by omega⟩
    rw [same p]
    exact (codec.accepts bytes).2 (by omega)
  · intro text formed wrong
    obtain ⟨bytes, length, -, same⟩ := ofHex_of_isHex formed
    rw [same p, codec.refuses bytes (by omega), show text.length / 2 = bytes.length by omega]
  · intro text key decoded
    obtain ⟨-, bytes, -, lowered, read⟩ := ofBytes_of_ofHex decoded
    rw [toHex, codec.encodes bytes key read, lowered]
  · intro key handedOut
    rw [ofHex_toHex, codec.decodes key handedOut]

end PublicKey

/-! ## All encodings -/

/-- The codecs of keys are exact. Text that is not hexadecimal is refused as such, whatever the
parameters and its length. Under accepted parameters the strings of `4n` bytes are the encodings of
private keys, those of `2n` bytes the encodings of public keys, and the texts of `4n` hexadecimal
digits their written form; other lengths are refused. Decoding and encoding undo each other for every
key that the library hands out: a key that was reloaded is the same in all its parts, so it signs the
same signatures and has the same public key, whose encoding is the second half of its own. -/
theorem codecs_are_exact :
    (∀ (p : Params) (text : String), ¬ Bytes.IsHex text →
      ∃ reason, PublicKey.ofHex p text = refuse (.invalidKey (.notHex reason))) ∧
    ∀ p : Params, p.check = .ok () →
      ExactCodec "private key" (4 * p.n.toNat) (PrivateKey.ofBytes p) PrivateKey.toBytes
        (PrivateKey.HandedOut p) ∧
      ExactCodec "public key" (2 * p.n.toNat) (PublicKey.ofBytes p) PublicKey.toBytes
        (PublicKey.HandedOut p) ∧
      PublicKey.ExactHex p ∧
      ∀ key, PrivateKey.HandedOut p key → PublicKey.HandedOut p key.publicKey ∧
        key.publicKey.toBytes = Bytes.slice (2 * p.n.toNat) (2 * p.n.toNat) key.toBytes := by
  constructor
  · intro p text malformed
    exact PublicKey.ofHex_of_not_isHex p malformed
  · intro p accepted
    refine ⟨PrivateKey.exactCodec accepted, PublicKey.exactCodec accepted,
      PublicKey.exactHex accepted, ?_⟩
    rintro key ⟨reached, rfl⟩
    exact ⟨⟨.ofPrivate reached, rfl⟩, reached.wellFormed.toBytes_publicKey⟩

/-- A key of zero bytes of the smallest instance and a public key in mixed case, both reloaded, with a
text of the wrong size, and a bad character under parameters of no instance. -/
theorem codecs_are_exact_smallest :
    (∃ key, PrivateKey.ofBytes (.ofBase .shake 16 1 1 1 1) (Bytes.zeros 64) = .ok key ∧
      PrivateKey.ofBytes (.ofBase .shake 16 1 1 1 1) key.toBytes = .ok key ∧
      key.publicKey.toBytes = Bytes.slice 32 32 key.toBytes) ∧
    (∃ key, PublicKey.ofHex (.ofBase .shake 16 1 1 1 1)
        (.ofList (List.replicate 32 'a' ++ List.replicate 32 'F')) = .ok key ∧
      key.toHex = .ofList (List.replicate 32 'a' ++ List.replicate 32 'f') ∧
      PublicKey.ofHex (.ofBase .shake 16 1 1 1 1) key.toHex = .ok key) ∧
    PublicKey.ofHex (.ofBase .shake 16 1 1 1 1) "C0fe" =
      refuse (.invalidLength "public key" 32 2) ∧
    ∃ reason, PublicKey.ofHex (.ofBase .shake 0 0 0 0 0) "0g" =
      refuse (.invalidKey (.notHex reason)) := by
  obtain ⟨malformed, exactly⟩ := codecs_are_exact
  obtain ⟨private_codec, -, hex, halves⟩ := exactly (.ofBase .shake 16 1 1 1 1) rfl
  obtain ⟨key, decoded⟩ := (private_codec.accepts (Bytes.zeros 64)).2 (Bytes.length_zeros 64)
  have handedOut := PrivateKey.HandedOut.of_ofBytes decoded
  obtain ⟨written, read⟩ :=
    (hex.accepts (.ofList (List.replicate 32 'a' ++ List.replicate 32 'F'))).2 (by
      rw [String.length_ofList, String.toList_ofList]
      refine ⟨rfl, ?_⟩
      intro c member
      rcases List.mem_append.1 member with first | second
      · simp [List.eq_of_mem_replicate first, Bytes.hexDigits]
      · simp [List.eq_of_mem_replicate second, Bytes.hexDigits])
  have four : "C0fe".length = 4 := by
    rw [← String.length_toList]
    simp
  have digits : Bytes.IsHex "C0fe" := by simp [Bytes.IsHex, Bytes.hexDigits, four]
  refine ⟨⟨key, decoded, private_codec.decodes key handedOut, (halves key handedOut).2⟩,
    ⟨written, read, ?_, hex.reads written (.of_ofHex read)⟩, ?_, ?_⟩
  · rw [hex.writes _ written read, String.toList_ofList]
    rfl
  · rw [hex.refuses "C0fe" digits (by rw [four]; decide), four]
    rfl
  · exact malformed _ "0g" (by simp [Bytes.IsHex, Bytes.hexDigits])

end HashSignature
