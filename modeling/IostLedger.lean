import IostLedger.Bounds
import IostLedger.Compare
import IostLedger.Endings
import IostLedger.Formats
import IostLedger.Errors
import IostLedger.Prompt
import IostLedger.Residue
import IostLedger.Wipe
import IostLedger.Multiply
import IostLedger.Tostring
import IostLedger.Disclosure
import IostLedger.Dongle
import IostLedger.Transport
import IostLedger.Deaf
import IostLedger.Conversation
