import Patterns.Split
import Patterns.Decimal
import Patterns.Pattern
import Patterns.Shape
import Patterns.Convert
import Patterns.Escalation
import Patterns.Integral
import Patterns.Decode
import Patterns.Order
import Patterns.Text
import Patterns.RoundTrip
import Patterns.Containers
