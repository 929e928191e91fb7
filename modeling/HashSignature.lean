import HashSignature.Json.Params
import HashSignature.Session
import HashSignature.Proofs.AddressHistory
import HashSignature.Proofs.InPlace
import HashSignature.Proofs.KeyCodec
import HashSignature.Proofs.KeySafety
import HashSignature.Proofs.OneTimeUse
import HashSignature.Proofs.PlainSigning
import HashSignature.Proofs.RandomAccounting
import HashSignature.Proofs.Refusal
import HashSignature.Proofs.RoundTrip
import HashSignature.Proofs.Tags
import HashSignature.Proofs.Tamper
import HashSignature.Proofs.DigitVectors
import HashSignature.Proofs.Ascent
import HashSignature.Proofs.Carrying
import HashSignature.Proofs.Framing
import HashSignature.Proofs.ShortForm
import HashSignature.Proofs.Binding
import HashSignature.Proofs.DigestStream
import HashSignature.Proofs.ParameterNames
